import ReflowOven.HttpServer

/-!
# The connection pool of the web server

Every descriptor the server accepts is closed once or held by one slot, whatever the
sockets answer, and the idle deadline runs exactly on the slots that still wait for a
request. The loops of a pass change the slots one at a time, so each of these is shown for
the body of each loop.
-/

namespace ReflowOven.Httpd

variable {n : ℕ}

/-- The descriptors in the slots. -/
def slotFds (s : Server n) : Fin n → Option Fd := fun i => (s.clients i).fd

/-- The idle deadline runs while the slot waits for a request, from when its connection was
accepted. -/
structure SlotSound (cfg : NetConfig) (log : List SocketEvent) (cl : Client) : Prop where
  armed : cl.idle.armed = true ↔ cl.fd.isSome ∧ cl.sse = false
  budget : cl.idle.armed = true → cl.idle.budgetMs = cfg.idleBudgetMs
  since : ∀ fd, cl.fd = some fd → acceptedAt fd log = some cl.idle.sinceMs

/-- What every pass keeps. -/
structure Sound (cfg : NetConfig) (s : Server n) : Prop where
  accounted : ∀ fd, Accounted (slotFds s) fd (history fd s.log)
  slots : ∀ i, SlotSound cfg s.log (s.clients i)

/-- From `s` to `s'` no slot changes, and no descriptor is accepted or closed. -/
structure Quiet (s s' : Server n) : Prop where
  clients : s'.clients = s.clients
  history : ∀ fd, history fd s'.log = history fd s.log
  acceptedAt : ∀ fd, acceptedAt fd s'.log = acceptedAt fd s.log

section Logs

variable (fd : Fd) (log : List SocketEvent)

@[simp] theorem history_nil : history fd [] = [] := rfl

@[simp] theorem history_append (log' : List SocketEvent) :
    history fd (log ++ log') = history fd log ++ history fd log' := List.filterMap_append

@[simp] theorem history_accepted (fd' : Fd) (time : ℤ) :
    history fd (.accepted fd' time :: log) =
      (if fd' = fd then [.opened] else []) ++ history fd log := by
  split_ifs with h <;> simp [history, h]

@[simp] theorem history_closed (fd' : Fd) :
    history fd (.closed fd' :: log) = (if fd' = fd then [.closed] else []) ++ history fd log := by
  split_ifs with h <;> simp [history, h]

@[simp] theorem history_sent (fd' : Fd) (bytes : List UInt8) :
    history fd (.sent fd' bytes :: log) = history fd log := rfl

@[simp] theorem acceptedAt_closed (fd' : Fd) :
    acceptedAt fd (log ++ [.closed fd']) = acceptedAt fd log := by simp [acceptedAt]

@[simp] theorem acceptedAt_sent (fd' : Fd) (bytes : List UInt8) :
    acceptedAt fd (log ++ [.sent fd' bytes]) = acceptedAt fd log := by simp [acceptedAt]

@[simp] theorem acceptedAt_accepted (fd' : Fd) (time : ℤ) :
    acceptedAt fd (log ++ [.accepted fd' time]) =
      if fd' = fd then some time else acceptedAt fd log := by
  split_ifs with h <;> simp [acceptedAt, h]

end Logs

theorem SlotSound.of_log {cfg : NetConfig} {log log' : List SocketEvent} {cl : Client}
    (h : SlotSound cfg log cl)
    (hlog : ∀ fd, cl.fd = some fd → acceptedAt fd log' = acceptedAt fd log) :
    SlotSound cfg log' cl :=
  ⟨h.armed, h.budget, fun fd hfd => (hlog fd hfd).trans (h.since fd hfd)⟩

section Sends

theorem Quiet.trans {s₁ s₂ s₃ : Server n} (h : Quiet s₁ s₂) (h' : Quiet s₂ s₃) : Quiet s₁ s₃ :=
  ⟨h'.clients.trans h.clients, fun fd => (h'.history fd).trans (h.history fd),
    fun fd => (h'.acceptedAt fd).trans (h.acceptedAt fd)⟩

theorem Quiet.of_eq {s s' : Server n} (hclients : s'.clients = s.clients) (hlog : s'.log = s.log) :
    Quiet s s' := ⟨hclients, fun fd => by rw [hlog], fun fd => by rw [hlog]⟩

theorem Quiet.slotFds {s s' : Server n} (h : Quiet s s') : slotFds s' = slotFds s := by
  funext i
  exact congrArg Client.fd (congrFun h.clients i)

theorem Quiet.sound {cfg : NetConfig} {s s' : Server n} (h : Quiet s s') (hs : Sound cfg s) :
    Sound cfg s' := by
  constructor
  case accounted =>
    intro fd
    rw [h.slotFds, h.history]
    exact hs.accounted fd
  case slots =>
    intro i
    rw [h.clients]
    exact (hs.slots i).of_log fun fd _ => h.acceptedAt fd

theorem uptime_quiet (s : Server n) : Quiet s (uptime s).2 := .of_eq rfl rfl

theorem sendAll_quiet (cfg : NetConfig) (fd : Fd) (data : List UInt8) (s : Server n) :
    Quiet s (sendAll cfg fd data s).2 := by
  refine ⟨rfl, fun fd' => ?_, fun fd' => ?_⟩
  · simp [sendAll, uptime]
  · simp [sendAll, uptime]

theorem sendResponse_quiet (cfg : NetConfig) (fd : Fd) (status ctype body : List UInt8)
    (s : Server n) : Quiet s (sendResponse cfg fd status ctype body s).2 := by
  have hheader := sendAll_quiet cfg fd (responseHeader status ctype body.length) s
  simp only [sendResponse]
  split_ifs
  · exact hheader
  · exact hheader.trans (sendAll_quiet _ _ _ _)
  · exact hheader

theorem sendProfiles_quiet (cfg : NetConfig) (fd : Fd) (s : Server n) :
    Quiet s (sendProfiles cfg fd s).2 := by
  simp only [sendProfiles]
  split_ifs <;> exact sendResponse_quiet _ _ _ _ _ _

theorem handleCmd_quiet (cfg : NetConfig) (fd : Fd) (query : Option CString) (queueTakes : Bool)
    (s : Server n) : Quiet s (handleCmd cfg fd query queueTakes s).2 := by
  have hpost (cmd : ReflowCmd) : Quiet s { s with posted := s.posted ++ [cmd] } := .of_eq rfl rfl
  simp only [handleCmd]
  split_ifs
  · exact sendResponse_quiet _ _ _ _ _ _
  · exact sendResponse_quiet _ _ _ _ _ _
  · exact (hpost _).trans (sendResponse_quiet _ _ _ _ _ _)
  · exact (hpost _).trans (sendResponse_quiet _ _ _ _ _ _)

/-- Serving a request changes at most its own slot, into an event stream, and a connection
that is kept has become one. -/
theorem serve_cases (cfg : NetConfig) (input : PassInput n) (i : Fin n) (fd : Fd) (s : Server n) :
    ((serve cfg input i fd s).1 = false ∧ Quiet s (serve cfg input i fd s).2) ∨
      Quiet (setClient s i { s.clients i with sse := true }) (serve cfg input i fd s).2 := by
  unfold serve
  split_ifs
  · exact .inl ⟨rfl, .of_eq rfl rfl⟩
  split
  · exact .inl ⟨rfl, .of_eq rfl rfl⟩
  · exact .inl ⟨rfl, sendResponse_quiet _ _ _ _ _ _⟩
  · exact .inl ⟨rfl, sendResponse_quiet _ _ _ _ _ _⟩
  · exact .inl ⟨rfl, sendProfiles_quiet _ _ _⟩
  · exact .inl ⟨rfl, sendResponse_quiet _ _ _ _ _ _⟩
  · have hheader := sendAll_quiet cfg fd eventsHeader s
    dsimp only
    split_ifs
    · exact .inl ⟨rfl, hheader⟩
    · refine .inr (Quiet.trans ⟨?_, ?_, ?_⟩ (sendAll_quiet _ _ _ _))
      · simp only [setClient, hheader.clients]
      · exact hheader.history
      · exact hheader.acceptedAt
  · exact .inl ⟨rfl, handleCmd_quiet _ _ _ _ _⟩
  · exact .inl ⟨rfl, sendResponse_quiet _ _ _ _ _ _⟩

end Sends

section Slots

@[simp] theorem setClient_self (s : Server n) (i : Fin n) (cl : Client) :
    (setClient s i cl).clients i = cl := by
  simp [setClient]

@[simp] theorem setClient_of_ne (s : Server n) {i j : Fin n} (hj : j ≠ i) (cl : Client) :
    (setClient s i cl).clients j = s.clients j := by
  simp [setClient, hj]

@[simp] theorem setClient_log (s : Server n) (i : Fin n) (cl : Client) :
    (setClient s i cl).log = s.log := rfl

@[simp] theorem slotFds_setClient (s : Server n) (i : Fin n) (cl : Client) :
    slotFds (setClient s i cl) = Function.update (slotFds s) i cl.fd := by
  funext j
  by_cases hj : j = i
  · simp [slotFds, hj]
  · simp [slotFds, hj]

/-- A slot that changes without letting go of its descriptor. -/
theorem slotFds_setClient_of_fd {s : Server n} {i : Fin n} (cl : Client)
    (hfd : cl.fd = (s.clients i).fd) : slotFds (setClient s i cl) = slotFds s := by
  rw [slotFds_setClient, hfd]
  exact Function.update_eq_self i (slotFds s)

/-- The end of a lifetime. -/
theorem clientClose_accounted {s : Server n} (i : Fin n) {fd : Fd}
    (h : Accounted (slotFds s) fd (history fd s.log)) :
    Accounted (slotFds (clientClose s i)) fd (history fd (clientClose s i).log) := by
  simp only [clientClose]
  split
  · exact h
  next fd' hi =>
    rw [slotFds_setClient, setClient_log, history_append, history_closed]
    by_cases hfd : fd' = fd
    · rw [if_pos hfd]
      exact h.closed (hi.trans (congrArg some hfd))
    · rw [if_neg hfd, List.nil_append, history_nil, List.append_nil]
      refine h.update_of_ne ?_ (by simp)
      change (s.clients i).fd ≠ some fd
      simpa [hi] using hfd

theorem clientClose_of_ne (s : Server n) {i j : Fin n} (hj : j ≠ i) :
    (clientClose s i).clients j = s.clients j := by
  simp only [clientClose]
  split
  · rfl
  · exact setClient_of_ne _ hj _

@[simp] theorem clientClose_acceptedAt (s : Server n) (i : Fin n) (fd : Fd) :
    acceptedAt fd (clientClose s i).log = acceptedAt fd s.log := by
  simp only [clientClose]
  split <;> simp

/-- A slot that is closed is sound whatever it was before. -/
theorem clientClose_sound {cfg : NetConfig} {s : Server n} {i : Fin n}
    (hacc : ∀ fd, Accounted (slotFds s) fd (history fd s.log)) (hopen : (s.clients i).fd.isSome)
    (hothers : ∀ j ≠ i, SlotSound cfg s.log (s.clients j)) : Sound cfg (clientClose s i) := by
  refine ⟨fun fd => clientClose_accounted i (hacc fd), fun j => ?_⟩
  by_cases hj : j = i
  · obtain ⟨fd, hfd⟩ := Option.isSome_iff_exists.mp hopen
    simp only [clientClose, hfd, hj, setClient_self]
    constructor <;> simp [reflowIdleBudgetDisarm]
  · rw [clientClose_of_ne s hj]
    exact (hothers j hj).of_log fun fd _ => clientClose_acceptedAt s i fd

/-- A slot that has become an event stream is disarmed. -/
theorem keepStream_sound {cfg : NetConfig} {s s' : Server n} (hs : Sound cfg s) {i : Fin n}
    (hquiet : Quiet (setClient s i { s.clients i with sse := true }) s') :
    Sound cfg (setClient s' i
      { s'.clients i with idle := reflowIdleBudgetDisarm (s'.clients i).idle }) := by
  constructor
  case accounted =>
    intro fd
    rw [slotFds_setClient_of_fd { s'.clients i with
      idle := reflowIdleBudgetDisarm (s'.clients i).idle } rfl, setClient_log, hquiet.slotFds,
      hquiet.history, slotFds_setClient_of_fd { s.clients i with sse := true } rfl]
    exact hs.accounted fd
  case slots =>
    intro j
    by_cases hj : j = i
    · subst hj
      rw [setClient_self]
      refine ⟨by simp [reflowIdleBudgetDisarm, hquiet.clients], by simp [reflowIdleBudgetDisarm],
        fun fd hfd => ?_⟩
      rw [setClient_log, hquiet.acceptedAt]
      simp only [hquiet.clients, setClient_self, reflowIdleBudgetDisarm] at hfd ⊢
      exact (hs.slots j).since fd hfd
    · rw [setClient_of_ne _ hj, hquiet.clients, setClient_of_ne s hj]
      exact (hs.slots j).of_log fun fd _ => hquiet.acceptedAt fd

theorem requestSlot_sound {cfg : NetConfig} (input : PassInput n) (fds : List Pollfd)
    {s : Server n} (hs : Sound cfg s) (i : Fin n) : Sound cfg (requestSlot cfg input fds s i) := by
  unfold requestSlot
  split
  · exact hs
  next fd hfd =>
    have hopen : (s.clients i).fd.isSome := by simp [hfd]
    dsimp only
    split_ifs with hready hsse hkeep
    · exact hs
    · exact clientClose_sound hs.accounted hopen fun j _ => hs.slots j
    · rcases serve_cases cfg input i fd s with ⟨-, hquiet⟩ | hquiet
      · have hs' := hquiet.sound hs
        exact clientClose_sound hs'.accounted (by rwa [hquiet.clients]) fun j _ => hs'.slots j
      · refine clientClose_sound (fun fd' => ?_) ?_ fun j hj => ?_
        · rw [hquiet.slotFds, hquiet.history,
            slotFds_setClient_of_fd { s.clients i with sse := true } rfl]
          exact hs.accounted fd'
        · simpa [hquiet.clients] using hopen
        · rw [hquiet.clients, setClient_of_ne s hj]
          exact (hs.slots j).of_log fun fd _ => hquiet.acceptedAt fd
    · rcases serve_cases cfg input i fd s with ⟨hend, -⟩ | hquiet
      · simp [hend] at hkeep
      · exact keepStream_sound hs hquiet

theorem reclaimSlot_sound {cfg : NetConfig} {s : Server n} (hs : Sound cfg s) (i : Fin n) :
    Sound cfg (reclaimSlot s i) := by
  unfold reclaimSlot
  split
  · exact hs
  next fd hfd =>
    have hquiet := uptime_quiet s
    have hs' := hquiet.sound hs
    dsimp only
    split_ifs
    · exact clientClose_sound hs'.accounted (by simp [hquiet.clients, hfd]) fun j _ => hs'.slots j
    · exact hs'

theorem pushSlot_sound {cfg : NetConfig} (input : PassInput n) {s : Server n} (hs : Sound cfg s)
    (i : Fin n) : Sound cfg (pushSlot cfg input s i) := by
  unfold pushSlot
  split
  · exact hs
  next fd hfd =>
    have hquiet := sendAll_quiet cfg fd (eventFrame (input.pushed i)) s
    have hs' := hquiet.sound hs
    dsimp only [pushEvent]
    split_ifs
    · exact clientClose_sound hs'.accounted (by simp [hquiet.clients, hfd]) fun j _ => hs'.slots j
    · exact hs'
    · exact hs

end Slots

section Passes

theorem freeSlot_eq_some {s : Server n} {i : Fin n} (h : freeSlot s = some i) :
    (s.clients i).fd = none := by
  simpa using List.find?_some h

/-- Beyond the limit a lifetime begins and ends at once; else the first free slot holds it. -/
theorem acceptClient_sound {cfg : NetConfig} {fd : Fd} {s : Server n} (hs : Sound cfg s)
    (hopen : ¬StillOpen fd s.log) : Sound cfg (acceptClient cfg fd s) := by
  have hfree := ((hs.accounted fd).free_of_getLast hopen).2
  have hkept (time : ℤ) (j : Fin n) :
      SlotSound cfg (s.log ++ [.accepted fd time]) (s.clients j) := by
    apply (hs.slots j).of_log
    intro fd' hfd'
    rw [acceptedAt_accepted, if_neg]
    rintro rfl
    exact hfree j hfd'
  simp only [acceptClient]
  split
  · refine ⟨fun fd' => ?_, fun j => ?_⟩
    · change Accounted (slotFds s) fd' (history fd' (s.log ++ [.accepted fd s.now, .closed fd]))
      by_cases hfd : fd = fd'
      · subst hfd
        simpa using (hs.accounted fd).refused hopen
      · simpa [hfd] using hs.accounted fd'
    · rw [List.append_cons]
      exact (hkept s.now j).of_log fun fd' _ => acceptedAt_closed fd' _ fd
  next i hi =>
    have hnone : slotFds s i = none := freeSlot_eq_some hi
    refine ⟨fun fd' => ?_, fun j => ?_⟩
    · rw [slotFds_setClient, setClient_log]
      change Accounted (Function.update (slotFds s) i (some fd)) fd'
        (history fd' (s.log ++ [.accepted fd (uptime s).1]))
      by_cases hfd : fd = fd'
      · subst hfd
        simpa using (hs.accounted fd).opened hopen i
      · simpa [hfd] using (hs.accounted fd').update_of_ne (by simp [hnone]) (by simpa using hfd)
    · by_cases hj : j = i
      · subst hj
        rw [setClient_self]
        have hpos : 0 < cfg.idleBudgetMs := by
          have hrange := cfg.idleBudget_range
          omega
        refine ⟨by simp [reflowIdleBudgetStart, hpos], by simp [reflowIdleBudgetStart], ?_⟩
        intro fd' hfd'
        obtain rfl : fd = fd' := by simpa using hfd'
        simp [reflowIdleBudgetStart]
      · rw [setClient_of_ne _ hj]
        exact hkept _ j

theorem acceptPhase_sound {cfg : NetConfig} {input : PassInput n} {s : Server n}
    (hs : Sound cfg s) (ha : ∀ fd, input.accept = some fd → ¬StillOpen fd s.log)
    (listener : Revents) : Sound cfg (acceptPhase cfg input listener s) := by
  simp only [acceptPhase]
  split_ifs
  · split
    · exact hs
    next fd hfd => exact acceptClient_sound hs (ha fd hfd)
  · exact hs

theorem passRequests_sound {cfg : NetConfig} {input : PassInput n} {s : Server n}
    (hs : Sound cfg s) (ha : ∀ fd, input.accept = some fd → ¬StillOpen fd s.log)
    (revents : ℕ → Revents) : Sound cfg (passRequests cfg input revents s) := by
  have hstart : Sound cfg { s with delays := input.delays, sends := input.sends } :=
    Quiet.sound (s := s) (.of_eq rfl rfl) hs
  exact List.foldlRecOn _ _ (acceptPhase_sound hstart ha _) fun _ h i _ =>
    requestSlot_sound input _ h i

theorem reclaimPhase_sound {cfg : NetConfig} {s : Server n} (hs : Sound cfg s) :
    Sound cfg (reclaimPhase s) :=
  List.foldlRecOn _ _ hs fun _ h i _ => reclaimSlot_sound h i

theorem pushPhase_sound {cfg : NetConfig} (input : PassInput n) {s : Server n}
    (hs : Sound cfg s) : Sound cfg (pushPhase cfg input s) := by
  simp only [pushPhase]
  split_ifs
  · refine List.foldlRecOn _ _ ?_ fun _ h i _ => pushSlot_sound input h i
    exact Quiet.sound (s := s) (.of_eq rfl rfl) hs
  · exact (uptime_quiet s).sound hs

theorem pass_sound {cfg : NetConfig} {input : PassInput n} {s : Server n} (hs : Sound cfg s)
    (ha : ∀ fd, input.accept = some fd → ¬StillOpen fd s.log) : Sound cfg (pass cfg s input) := by
  simp only [pass]
  split
  · exact hs
  · exact pushPhase_sound input (reclaimPhase_sound (passRequests_sound hs ha _))

theorem sound_of_reachable {cfg : NetConfig} {s : Server cfg.maxClients}
    (h : (httpd cfg).Reachable s) : Sound cfg s := by
  refine h.invariant (I := Sound cfg) ?_ fun s input _ hs ha => pass_sound hs ha
  rintro s ⟨hclients, -, hlog, -⟩
  refine ⟨fun fd => .free 0 (by simp [hlog, lifetimes]) (by simp [slotFds, hclients]), fun i => ?_⟩
  rw [hclients]
  constructor <;> simp

end Passes

section Reclaim

theorem reclaimSlot_of_ne (s : Server n) {i j : Fin n} (hj : j ≠ i) :
    (reclaimSlot s i).clients j = s.clients j := by
  unfold reclaimSlot
  split
  · rfl
  · dsimp only
    split_ifs
    · exact clientClose_of_ne _ hj
    · rfl

theorem foldl_reclaimSlot_of_notMem (s : Server n) {l : List (Fin n)} {j : Fin n} (hj : j ∉ l) :
    (l.foldl reclaimSlot s).clients j = s.clients j := by
  induction l generalizing s with
  | nil => rfl
  | cons i l ih =>
    rw [List.foldl_cons, ih _ (List.not_mem_of_not_mem_cons hj)]
    exact reclaimSlot_of_ne s (List.ne_of_not_mem_cons hj)

theorem reclaimSlot_cases (s : Server n) (i : Fin n) :
    ((reclaimSlot s i).clients i = s.clients i ∧ ((s.clients i).fd.isSome →
        reflowIdleBudgetExpired (s.clients i).idle (uptime s).1 = false)) ∨
      (((reclaimSlot s i).clients i).fd = none ∧
        reflowIdleBudgetExpired (s.clients i).idle (uptime s).1 = true) := by
  unfold reclaimSlot
  split
  · next hnone => exact .inl ⟨rfl, by simp [hnone]⟩
  next fd hfd =>
    dsimp only
    rw [(uptime_quiet s).clients]
    split_ifs with hexpired
    · refine .inr ⟨?_, hexpired⟩
      simp [clientClose, (uptime_quiet s).clients, hfd]
    · exact .inl ⟨congrFun (uptime_quiet s).clients i, fun _ => by simpa using hexpired⟩

/-- The server when the loop comes to slot `i`. -/
def beforeSlot (s : Server n) (i : Fin n) : Server n :=
  ((List.finRange n).take i).foldl reclaimSlot s

/-- The reading of the clock by which the loop judges slot `i`. -/
def idleReading (s : Server n) (i : Fin n) : ℤ := (uptime (beforeSlot s i)).1

/-- The loop as slot `i` sees it: its own turn, and no other. -/
theorem reclaimPhase_clients (s : Server n) (i : Fin n) :
    (reclaimPhase s).clients i = (reclaimSlot (beforeSlot s i) i).clients i ∧
      (beforeSlot s i).clients i = s.clients i := by
  have hsplit : List.finRange n =
      (List.finRange n).take i ++ i :: (List.finRange n).drop (i + 1) := by
    have hi : (i : ℕ) < (List.finRange n).length := by simp
    conv_lhs => rw [← List.take_append_drop i (List.finRange n), List.drop_eq_getElem_cons hi]
    simp
  have hnodup := List.nodup_finRange n
  rw [hsplit] at hnodup
  have hbefore : i ∉ (List.finRange n).take i := fun hmem =>
    (List.nodup_append.mp hnodup).2.2 i hmem i List.mem_cons_self rfl
  have hafter : i ∉ (List.finRange n).drop (i + 1) :=
    (List.nodup_cons.mp (List.nodup_append.mp hnodup).2.1).1
  refine ⟨?_, foldl_reclaimSlot_of_notMem s hbefore⟩
  simp only [reclaimPhase]
  conv_lhs => rw [hsplit, List.foldl_append, List.foldl_cons]
  exact foldl_reclaimSlot_of_notMem _ hafter

/-- The reclaim loop does not touch an event stream. -/
theorem reclaimPhase_of_sse {cfg : NetConfig} {s : Server n} (hs : Sound cfg s) {i : Fin n}
    (hsse : (s.clients i).sse = true) : (reclaimPhase s).clients i = s.clients i := by
  obtain ⟨hturn, hsame⟩ := reclaimPhase_clients s i
  have hdisarmed : (s.clients i).idle.armed = false := by
    have harmed := (hs.slots i).armed
    rw [hsse] at harmed
    simpa using harmed
  rcases reclaimSlot_cases (beforeSlot s i) i with ⟨hkept, -⟩ | ⟨-, hexpired⟩
  · rw [hturn, hkept, hsame]
  · rw [hsame, reflowIdleBudgetExpired_of_disarmed hdisarmed] at hexpired
    exact absurd hexpired (by decide)

/-- A slot that the loop leaves waiting for a request is not past the idle budget. -/
theorem reclaimPhase_age {cfg : NetConfig} {s : Server n} (hs : Sound cfg s) {i : Fin n}
    (hopen : ((reclaimPhase s).clients i).fd.isSome)
    (hsse : ((reclaimPhase s).clients i).sse = false) :
    idleReading s i - ((reclaimPhase s).clients i).idle.sinceMs ≤ cfg.idleBudgetMs := by
  obtain ⟨hturn, hsame⟩ := reclaimPhase_clients s i
  rcases reclaimSlot_cases (beforeSlot s i) i with ⟨hkept, htime⟩ | ⟨hclosed, -⟩
  · rw [hturn, hkept, hsame] at hopen hsse ⊢
    rw [hsame] at htime
    have harmed := (hs.slots i).armed.mpr ⟨hopen, hsse⟩
    have hbudget := (hs.slots i).budget harmed
    by_contra hlate
    have hexpired : reflowIdleBudgetExpired (s.clients i).idle (idleReading s i) = true :=
      deadlinePassed_iff.mpr ⟨harmed, by omega⟩
    exact absurd ((htime hopen).symm.trans hexpired) (by decide)
  · rw [hturn, hclosed] at hopen
    exact absurd hopen (by decide)

end Reclaim

section Openings

/-- The descriptor that `accept` returns to a pass, where the pass calls it. -/
def PassInput.returned (input : PassInput n) : Option Fd :=
  match input.poll with
  | none => none
  | some revents => if (revents 0).pollin then input.accept else none

/-- From `s` to `s'` the lifetimes that begin are those of these descriptors. -/
def Opened (fds : List Fd) (s s' : Server n) : Prop :=
  ∀ fd, (history fd s'.log).count .opened = (history fd s.log).count .opened + fds.count fd

theorem Opened.trans {fds fds' : List Fd} {s s' s'' : Server n} (h : Opened fds s s')
    (h' : Opened fds' s' s'') : Opened (fds ++ fds') s s'' := by
  intro fd
  rw [h' fd, h fd, List.count_append, Nat.add_assoc]

theorem Quiet.opened {s s' : Server n} (h : Quiet s s') : Opened [] s s' := by
  intro fd
  rw [h.history, List.count_nil, Nat.add_zero]

theorem clientClose_opened (s : Server n) (i : Fin n) : Opened [] s (clientClose s i) := by
  intro fd
  simp only [clientClose]
  split
  · rfl
  next fd' _ =>
    rw [setClient_log, history_append, history_closed, List.count_append]
    split_ifs <;> rfl

/-- Connections are closed in the loops of a pass, and none is opened. -/
theorem requestSlot_opened (cfg : NetConfig) (input : PassInput n) (fds : List Pollfd)
    (s : Server n) (i : Fin n) : Opened [] s (requestSlot cfg input fds s i) := by
  unfold requestSlot
  split
  · exact fun _ => rfl
  next fd _ =>
    have hserve : Opened [] s (serve cfg input i fd s).2 := by
      rcases serve_cases cfg input i fd s with ⟨-, hquiet⟩ | hquiet
      · exact hquiet.opened
      · exact hquiet.opened
    dsimp only
    split_ifs
    · exact fun _ => rfl
    · exact clientClose_opened s i
    · exact hserve.trans (clientClose_opened _ i)
    · exact hserve

theorem reclaimSlot_opened (s : Server n) (i : Fin n) : Opened [] s (reclaimSlot s i) := by
  unfold reclaimSlot
  split
  · exact fun _ => rfl
  · dsimp only
    split_ifs
    · exact (uptime_quiet s).opened.trans (clientClose_opened _ i)
    · exact (uptime_quiet s).opened

theorem pushSlot_opened (cfg : NetConfig) (input : PassInput n) (s : Server n) (i : Fin n) :
    Opened [] s (pushSlot cfg input s i) := by
  unfold pushSlot
  split
  · exact fun _ => rfl
  next fd _ =>
    have hpush := (sendAll_quiet cfg fd (eventFrame (input.pushed i)) s).opened
    dsimp only [pushEvent]
    split_ifs
    · exact hpush.trans (clientClose_opened _ i)
    · exact hpush
    · exact fun _ => rfl

theorem foldl_opened {turn : Server n → Fin n → Server n} (h : ∀ s i, Opened [] s (turn s i))
    (slots : List (Fin n)) (s : Server n) : Opened [] s (slots.foldl turn s) := by
  induction slots generalizing s with
  | nil => exact fun _ => rfl
  | cons i slots ih => exact (h s i).trans (ih _)

/-- A descriptor that is accepted begins one lifetime, with a slot for it or without. -/
theorem acceptClient_opened (cfg : NetConfig) (fd : Fd) (s : Server n) :
    Opened [fd] s (acceptClient cfg fd s) := by
  intro fd'
  simp only [acceptClient]
  split
  · by_cases hfd : fd = fd' <;> simp [hfd]
  · by_cases hfd : fd = fd' <;> simp [hfd, uptime]

theorem pushPhase_opened (cfg : NetConfig) (input : PassInput n) (s : Server n) :
    Opened [] s (pushPhase cfg input s) := by
  simp only [pushPhase]
  split_ifs
  · have hclock : Opened [] s
        { (uptime (uptime s).2).2 with lastPush := (uptime (uptime s).2).1 } := fun _ => rfl
    exact hclock.trans (foldl_opened (pushSlot_opened cfg input) _ _)
  · exact (uptime_quiet s).opened

/-- A pass begins a lifetime for the descriptor that `accept` returned to it, and no other. -/
theorem pass_opened (cfg : NetConfig) (s : Server n) (input : PassInput n) :
    Opened input.returned.toList s (pass cfg s input) := by
  cases hpoll : input.poll with
  | none =>
    simp only [pass, PassInput.returned, hpoll]
    exact fun _ => rfl
  | some revents =>
    have haccept : Opened input.returned.toList s (acceptPhase cfg input (revents 0)
        { s with delays := input.delays, sends := input.sends }) := by
      simp only [acceptPhase, PassInput.returned, hpoll]
      split_ifs
      · cases input.accept with
        | none => exact fun _ => rfl
        | some fd => exact acceptClient_opened cfg fd _
      · exact fun _ => rfl
    have hrequests := haccept.trans (foldl_opened
      (requestSlot_opened cfg input (pollfds
        { s with delays := input.delays, sends := input.sends } revents)) (List.finRange n) _)
    have hreclaim := hrequests.trans (foldl_opened reclaimSlot_opened (List.finRange n) _)
    have hpass := hreclaim.trans (pushPhase_opened cfg input _)
    rw [List.append_nil, List.append_nil, List.append_nil] at hpass
    simp only [pass, hpoll]
    exact hpass

theorem run_opened (cfg : NetConfig) (s : Server cfg.maxClients)
    (inputs : List (PassInput cfg.maxClients)) :
    Opened (inputs.filterMap PassInput.returned) s ((httpd cfg).run s inputs) := by
  induction inputs generalizing s with
  | nil => exact fun _ => rfl
  | cons input inputs ih =>
    have h : Opened _ s ((httpd cfg).run s (input :: inputs)) :=
      (pass_opened cfg s input).trans (ih ((httpd cfg).step s input))
    cases hreturned : input.returned with
    | none =>
      rw [hreturned] at h
      rwa [List.filterMap_cons_none hreturned]
    | some fd =>
      rw [hreturned] at h
      rwa [List.filterMap_cons_some hreturned]

end Openings

section Pool

/-- The descriptors that the slots hold. -/
def heldFds (s : Server n) : List Fd := (List.finRange n).filterMap fun i => (s.clients i).fd

/-- The pool at the end of a pass, and what the reclaim loop of the next one does. -/
structure PoolInvariant (cfg : NetConfig) (s : Server cfg.maxClients) : Prop where
  accounted : ∀ fd, Accounted (slotFds s) fd (history fd s.log)
  accepts : ∀ input fd, (history fd ((httpd cfg).step s input).log).count .opened =
    (history fd s.log).count .opened + if input.returned = some fd then 1 else 0
  limit : (heldFds s).length ≤ cfg.maxClients
  armed : ∀ i, (s.clients i).idle.armed = true ↔
    (s.clients i).fd.isSome ∧ (s.clients i).sse = false
  streams : ∀ input revents, (httpd cfg).admits s input → ∀ i,
    ((passRequests cfg input revents s).clients i).sse = true →
      (reclaimPhase (passRequests cfg input revents s)).clients i =
        (passRequests cfg input revents s).clients i
  ages : ∀ input revents, (httpd cfg).admits s input → ∀ i fd,
    ((reclaimPhase (passRequests cfg input revents s)).clients i).fd = some fd →
    ((reclaimPhase (passRequests cfg input revents s)).clients i).sse = false →
      ∃ time, acceptedAt fd (reclaimPhase (passRequests cfg input revents s)).log = some time ∧
        idleReading (passRequests cfg input revents s) i - time ≤ cfg.idleBudgetMs

/-- Over every run of the server, a descriptor begins a lifetime each time `accept` returns it and
at no other time, and it is closed once or held by one slot; the idle deadline runs exactly on
the slots that wait for a request, and the reclaim loop closes no event stream and leaves no
slot past the budget. -/
theorem poolInvariant_of_run {cfg : NetConfig} {s : Server cfg.maxClients}
    (hstart : (httpd cfg).init s) {inputs : List (PassInput cfg.maxClients)}
    (h : (httpd cfg).Admitted s inputs) :
    PoolInvariant cfg ((httpd cfg).run s inputs) ∧
      ∀ fd, (history fd ((httpd cfg).run s inputs).log).count .opened =
        (inputs.filterMap PassInput.returned).count fd := by
  have hs := sound_of_reachable ((Machine.Reachable.start hstart).run h)
  generalize hlast : (httpd cfg).run s inputs = t at hs
  refine ⟨?_, fun fd => ?_⟩
  · constructor
    case accounted => exact hs.accounted
    case accepts =>
      intro input fd
      refine (pass_opened cfg t input fd).trans ?_
      cases input.returned with
      | none => simp
      | some fd' => by_cases hfd : fd' = fd <;> simp [hfd]
    case limit =>
      calc (heldFds t).length ≤ (List.finRange cfg.maxClients).length :=
            List.length_filterMap_le _ _
        _ = cfg.maxClients := List.length_finRange
    case armed => exact fun i => (hs.slots i).armed
    case streams =>
      intro input revents ha i hsse
      exact reclaimPhase_of_sse (passRequests_sound hs ha revents) hsse
    case ages =>
      intro input revents ha i fd hfd hsse
      have hs' := passRequests_sound hs ha revents
      have hsince := ((reclaimPhase_sound hs').slots i).since fd hfd
      exact ⟨_, hsince, reclaimPhase_age hs' (by simp [hfd]) hsse⟩
  · rw [← hlast, run_opened cfg s inputs fd, hstart.2.2.1]
    simp

def oneVisitor : PassInput 4 where
  poll := some fun _ => { pollin := true }
  accept := some 7
  recv _ := []
  post _ := false
  served _ := ⟨0, 0, 0, 0, 0, 0, 0, 0, 0, 0, 0, 0⟩
  pushed _ := ⟨0, 0, 0, 0, 0, 0, 0, 0, 0, 0, 0, 0⟩
  delays := [3]
  sends := []

def started : Server 4 := ⟨fun _ => {}, 1000, 1000, [], [], [], []⟩

def siteConfig : NetConfig := {}

theorem poolInvariant_oneVisitor :
    PoolInvariant siteConfig ((httpd siteConfig).run started [oneVisitor]) ∧
      ∀ fd, (history fd ((httpd siteConfig).run started [oneVisitor]).log).count .opened =
        ([oneVisitor].filterMap PassInput.returned).count fd := by
  have hstart : (httpd siteConfig).init started := ⟨fun _ => rfl, rfl, rfl, rfl⟩
  have hvisit : (httpd siteConfig).admits started oneVisitor :=
    fun fd _ => by simp [StillOpen, started]
  exact poolInvariant_of_run hstart ⟨hvisit, trivial⟩

end Pool

end ReflowOven.Httpd

import ReflowOven.HttpServer

/-!
# A transfer to a slow peer

`send_all` against an endless stream of answers of `zsock_send`. The bytes left and the
silence left of the budget bound the number of calls; what was accepted is a beginning of
the data; and the transfer is given up at the first answer that is an error, or that finds
more than the budget gone since the last accepted byte.
-/

namespace ReflowOven.SendProgress

open Httpd

abbrev Peer := ℕ → SendReply

section Ledger

variable (t₀ : ℤ) (peer : Peer)

def clockAt : ℕ → ℤ
  | 0 => t₀
  | i + 1 => clockAt i + (peer i).ms

def SendResult.bytes : SendResult → ℕ
  | .sent k => k
  | .again | .error => 0

def takenBy : ℕ → ℕ
  | 0 => 0
  | i + 1 => takenBy i + SendResult.bytes (peer i).result

/-- When, before call `i`, a byte was last accepted; the start if none was. -/
def lastMoved : ℕ → ℤ
  | 0 => t₀
  | i + 1 => if 0 < SendResult.bytes (peer i).result then clockAt t₀ peer (i + 1) else lastMoved i

/-- Call `i` is an `EAGAIN` seen more than the budget after the last accepted byte. -/
def Late (budget i : ℕ) : Prop :=
  (peer i).result = .again ∧ (budget : ℤ) < clockAt t₀ peer (i + 1) - lastMoved t₀ peer i

/-- Call `i` answers 0 or an error other than `EAGAIN`. -/
def Dead (i : ℕ) : Prop := (peer i).result = .sent 0 ∨ (peer i).result = .error

/-- What `zsock_send` promises: no more than was asked for, and an `EAGAIN` takes time. -/
structure Lawful (len : ℕ) : Prop where
  count_le : ∀ i k, (peer i).result = .sent k → takenBy peer i + k ≤ len ∨ len ≤ takenBy peer i
  again_takes : ∀ i, (peer i).result = .again → 1 ≤ (peer i).ms

variable {peer} in
theorem takenBy_mono {i j : ℕ} (h : i ≤ j) : takenBy peer i ≤ takenBy peer j := by
  induction h with
  | refl => exact le_rfl
  | step _ ih => exact ih.trans (Nat.le_add_right _ _)

end Ledger

def stretch (data : List UInt8) (i j : ℕ) : List UInt8 := (data.drop i).take (j - i)

@[simp] theorem stretch_self (data : List UInt8) (i : ℕ) : stretch data i i = [] := by
  simp [stretch]

theorem stretch_append (data : List UInt8) {i j k : ℕ} (hij : i ≤ j) (hjk : j ≤ k) :
    stretch data i j ++ stretch data j k = stretch data i k := by
  have hsplit : k - i = j - i + (k - j) := by omega
  simp only [stretch]
  rw [hsplit, List.take_add, List.drop_drop, Nat.add_sub_cancel' hij]

/-- From call `i` on, `count` calls end the transfer with `ok`, whatever would come after. -/
structure Settles (t₀ : ℤ) (peer : Peer) (budget : ℕ) (data : List UInt8) (i count : ℕ)
    (ok : Bool) : Prop where
  outcome : ∀ rest, sendLoop ((List.range' i count).map peer ++ rest)
    (data.drop (takenBy peer i)) ⟨lastMoved t₀ peer i, budget, true⟩ (clockAt t₀ peer i) =
    ⟨ok, stretch data (takenBy peer i) (takenBy peer (i + count)),
      clockAt t₀ peer (i + count), rest⟩
  so_far : ∀ m ≤ count, (sendLoop ((List.range' i m).map peer) (data.drop (takenBy peer i))
    ⟨lastMoved t₀ peer i, budget, true⟩ (clockAt t₀ peer i)).accepted =
    stretch data (takenBy peer i) (takenBy peer (i + m))
  within : takenBy peer i ≤ takenBy peer (i + count) ∧ takenBy peer (i + count) ≤ data.length
  ok_iff : ok = true ↔ takenBy peer (i + count) = data.length
  gives_up : ∀ j, i ≤ j → j < i + count →
    (Late t₀ peer budget j ∨ Dead peer j ↔ j + 1 = i + count ∧ ok = false)
  silent : count = 0 → ok = true

section Steps

variable {t₀ : ℤ} {peer : Peer} {budget : ℕ} {data : List UInt8} {i : ℕ}

theorem Settles.done (h : takenBy peer i = data.length) :
    Settles t₀ peer budget data i 0 true where
  outcome rest := by
    have hnil : data.drop (takenBy peer i) = [] := by rw [h, List.drop_length]
    simp [hnil, sendLoop, stretch]
  so_far m hm := by
    have hnil : data.drop (takenBy peer i) = [] := by rw [h, List.drop_length]
    simp [hnil, sendLoop, stretch]
  within := ⟨le_rfl, h.le⟩
  ok_iff := iff_of_true rfl h
  gives_up j hle hlt := absurd hlt (by omega)
  silent _ := rfl

theorem sendLoop_nil (data : List UInt8) (b : ReflowSendBudget) (now : ℤ) :
    (sendLoop [] data b now).accepted = [] := by
  cases data <;> rfl

theorem sendLoop_stop (hleft : takenBy peer i < data.length)
    (hstop : Late t₀ peer budget i ∨ Dead peer i) (replies : List SendReply) :
    sendLoop (peer i :: replies) (data.drop (takenBy peer i))
        ⟨lastMoved t₀ peer i, budget, true⟩ (clockAt t₀ peer i) =
      ⟨false, [], clockAt t₀ peer (i + 1), replies⟩ ∧ takenBy peer (i + 1) = takenBy peer i := by
  cases hdata : data.drop (takenBy peer i) with
  | nil => simp at hdata; omega
  | cons c tail =>
    rw [sendLoop]
    rcases hstop with ⟨hagain, hlate⟩ | hzero | herror
    · have hexpired : reflowSendBudgetExpired ⟨lastMoved t₀ peer i, budget, true⟩
          (clockAt t₀ peer i + (peer i).ms) = true := by
        rw [reflowSendBudgetExpired, deadlinePassed_iff]
        exact ⟨rfl, hlate⟩
      simp [hagain, hexpired, clockAt, takenBy, SendResult.bytes]
    · simp [hzero, clockAt, takenBy, SendResult.bytes]
    · simp [herror, clockAt, takenBy, SendResult.bytes]

theorem sendLoop_goOn (hleft : takenBy peer i < data.length) (hlate : ¬Late t₀ peer budget i)
    (hdead : ¬Dead peer i) (replies : List SendReply) :
    sendLoop (peer i :: replies) (data.drop (takenBy peer i))
        ⟨lastMoved t₀ peer i, budget, true⟩ (clockAt t₀ peer i) =
      let r := sendLoop replies (data.drop (takenBy peer (i + 1)))
        ⟨lastMoved t₀ peer (i + 1), budget, true⟩ (clockAt t₀ peer (i + 1))
      { r with accepted :=
          stretch data (takenBy peer i) (takenBy peer (i + 1)) ++ r.accepted } := by
  cases hdata : data.drop (takenBy peer i) with
  | nil => simp at hdata; omega
  | cons c tail =>
    rw [sendLoop]
    cases hresult : (peer i).result with
    | again =>
      have hexpired : reflowSendBudgetExpired ⟨lastMoved t₀ peer i, budget, true⟩
          (clockAt t₀ peer i + (peer i).ms) = false := by
        rw [← Bool.not_eq_true, reflowSendBudgetExpired, deadlinePassed_iff]
        exact fun hpassed => hlate ⟨hresult, hpassed.2⟩
      have htaken : takenBy peer (i + 1) = takenBy peer i := by
        simp [takenBy, hresult, SendResult.bytes]
      have hmoved : lastMoved t₀ peer (i + 1) = lastMoved t₀ peer i := by
        simp [lastMoved, hresult, SendResult.bytes]
      simp only [hexpired, Bool.false_eq_true, if_false, htaken, hmoved, hdata, stretch_self,
        List.nil_append]
      rfl
    | sent k =>
      have hk : 0 < k := by
        refine Nat.pos_of_ne_zero fun hzero => hdead (.inl ?_)
        rw [hresult, hzero]
      have htaken : takenBy peer (i + 1) = takenBy peer i + k := by
        simp [takenBy, hresult, SendResult.bytes]
      have hmoved : lastMoved t₀ peer (i + 1) = clockAt t₀ peer (i + 1) := by
        simp [lastMoved, hresult, SendResult.bytes, hk]
      simp only [hk, if_true, htaken, hmoved, ← List.drop_drop, hdata, stretch,
        Nat.add_sub_cancel_left]
      rfl
    | error => exact absurd (.inr hresult) hdead

theorem Settles.fail (hleft : takenBy peer i < data.length)
    (hstop : Late t₀ peer budget i ∨ Dead peer i) :
    Settles t₀ peer budget data i 1 false := by
  obtain ⟨-, htaken⟩ := sendLoop_stop hleft hstop []
  exact
    { outcome := by
        intro rest
        rw [htaken, stretch_self]
        exact (sendLoop_stop hleft hstop rest).1
      so_far := by
        intro m hm
        rcases Nat.le_one_iff_eq_zero_or_eq_one.mp hm with rfl | rfl
        · simp [sendLoop_nil]
        · rw [htaken, stretch_self]
          exact congrArg SendOutcome.accepted (sendLoop_stop hleft hstop []).1
      within := ⟨htaken.ge, htaken ▸ hleft.le⟩
      ok_iff := by simp [htaken, hleft.ne]
      gives_up := by
        intro j hle hlt
        obtain rfl : j = i := by omega
        exact iff_of_true hstop ⟨rfl, rfl⟩
      silent := nofun }

theorem Settles.goOn (hleft : takenBy peer i < data.length) (hlate : ¬Late t₀ peer budget i)
    (hdead : ¬Dead peer i) {count : ℕ} {ok : Bool}
    (h : Settles t₀ peer budget data (i + 1) count ok) :
    Settles t₀ peer budget data i (count + 1) ok := by
  have hend : i + (count + 1) = i + 1 + count := by omega
  have hwithin := h.within
  have hle : takenBy peer i ≤ takenBy peer (i + 1) := Nat.le_add_right _ _
  exact
    { outcome := by
        intro rest
        rw [hend, List.range'_succ, List.map_cons, List.cons_append,
          sendLoop_goOn hleft hlate hdead, h.outcome rest]
        simp only [stretch_append data hle hwithin.1]
      so_far := by
        intro m hm
        cases m with
        | zero => simp [sendLoop_nil]
        | succ m =>
          have hmid : i + (m + 1) = i + 1 + m := by omega
          rw [hmid, List.range'_succ, List.map_cons, sendLoop_goOn hleft hlate hdead]
          simp only [h.so_far m (by omega)]
          exact stretch_append data hle (takenBy_mono (Nat.le_add_right _ _))
      within := by
        rw [hend]
        exact ⟨hle.trans hwithin.1, hwithin.2⟩
      ok_iff := by
        rw [hend]
        exact h.ok_iff
      gives_up := by
        intro j hij hlt
        rcases Nat.eq_or_lt_of_le hij with rfl | hij
        · refine iff_of_false (fun hstop => hstop.elim hlate hdead) ?_
          rintro ⟨hlast, hok⟩
          have hsilent := h.silent (by omega)
          rw [hok] at hsilent
          cases hsilent
        · rw [hend]
          exact h.gives_up j hij (by omega)
      silent := nofun }

end Steps

/-- The calls that can still be made before call `i`: every one of them takes a byte or a
millisecond of the silence that is left. -/
def callsLeft (t₀ : ℤ) (peer : Peer) (budget len i : ℕ) : ℕ :=
  (len - takenBy peer i) * (budget + 2) +
    (budget + 1 - (clockAt t₀ peer i - lastMoved t₀ peer i).toNat)

theorem lastMoved_le (t₀ : ℤ) (peer : Peer) (i : ℕ) : lastMoved t₀ peer i ≤ clockAt t₀ peer i := by
  induction i with
  | zero => exact le_rfl
  | succ i ih =>
    rw [lastMoved]
    split
    · exact le_rfl
    · simp only [clockAt]
      omega

section Bound

variable {t₀ : ℤ} {peer : Peer} {budget : ℕ} {data : List UInt8}

/-- A call that does not end the transfer leaves fewer calls to make, and the silence within
the budget. -/
theorem callsLeft_succ {i : ℕ} (hlaw : Lawful peer data.length)
    (hleft : takenBy peer i < data.length)
    (hquiet : clockAt t₀ peer i - lastMoved t₀ peer i ≤ budget) (hlate : ¬Late t₀ peer budget i)
    (hdead : ¬Dead peer i) :
    takenBy peer (i + 1) ≤ data.length ∧
      clockAt t₀ peer (i + 1) - lastMoved t₀ peer (i + 1) ≤ budget ∧
      callsLeft t₀ peer budget data.length (i + 1) < callsLeft t₀ peer budget data.length i := by
  have hmono := lastMoved_le t₀ peer i
  cases hresult : (peer i).result with
  | again =>
    have htaken : takenBy peer (i + 1) = takenBy peer i := by
      simp [takenBy, hresult, SendResult.bytes]
    have hmoved : lastMoved t₀ peer (i + 1) = lastMoved t₀ peer i := by
      simp [lastMoved, hresult, SendResult.bytes]
    have hclock : clockAt t₀ peer (i + 1) = clockAt t₀ peer i + (peer i).ms := rfl
    have htime := hlaw.again_takes i hresult
    have hin : clockAt t₀ peer (i + 1) - lastMoved t₀ peer i ≤ budget :=
      not_lt.mp fun hover => hlate ⟨hresult, hover⟩
    refine ⟨htaken ▸ hleft.le, hmoved ▸ hin, ?_⟩
    simp only [callsLeft, htaken, hmoved]
    omega
  | sent k =>
    have hk : 0 < k := by
      refine Nat.pos_of_ne_zero fun hzero => hdead (.inl ?_)
      rw [hresult, hzero]
    have htaken : takenBy peer (i + 1) = takenBy peer i + k := by
      simp [takenBy, hresult, SendResult.bytes]
    have hmoved : lastMoved t₀ peer (i + 1) = clockAt t₀ peer (i + 1) := by
      simp [lastMoved, hresult, SendResult.bytes, hk]
    have hfit : takenBy peer i + k ≤ data.length := by
      rcases hlaw.count_le i k hresult with hle | hle
      · exact hle
      · omega
    refine ⟨htaken ▸ hfit, by rw [hmoved]; omega, ?_⟩
    have hfewer : (data.length - takenBy peer (i + 1)) * (budget + 2) + (budget + 2) ≤
        (data.length - takenBy peer i) * (budget + 2) := by
      rw [← Nat.succ_mul]
      exact Nat.mul_le_mul_right _ (by omega)
    simp only [callsLeft, hmoved, sub_self]
    omega
  | error => exact absurd (.inr hresult) hdead

/-- From a state within the budget the transfer settles, in no more calls than are left. -/
theorem settles_of_calls_left (hlaw : Lawful peer data.length) {left : ℕ} {i : ℕ}
    (htaken : takenBy peer i ≤ data.length)
    (hquiet : clockAt t₀ peer i - lastMoved t₀ peer i ≤ budget)
    (hcalls : callsLeft t₀ peer budget data.length i ≤ left) :
    ∃ count ok, count ≤ left ∧ Settles t₀ peer budget data i count ok := by
  induction left generalizing i with
  | zero =>
    have hmono := lastMoved_le t₀ peer i
    simp only [callsLeft] at hcalls
    omega
  | succ left ih =>
    rcases Nat.eq_or_lt_of_le htaken with hall | hleft
    · exact ⟨0, true, by omega, .done hall⟩
    by_cases hstop : Late t₀ peer budget i ∨ Dead peer i
    · exact ⟨1, false, by omega, .fail hleft hstop⟩
    · push Not at hstop
      obtain ⟨htaken', hquiet', hfewer⟩ := callsLeft_succ hlaw hleft hquiet hstop.1 hstop.2
      obtain ⟨count, ok, hcount, hsettles⟩ := ih htaken' hquiet' (by omega)
      exact ⟨count + 1, ok, by omega, hsettles.goOn hleft hstop.1 hstop.2⟩

end Bound

/-- What is known of a transfer: after any number of calls the bytes accepted are a
beginning of the data, it reports success exactly when they are all of it, and exactly a
last call that is late or dead makes it fail. -/
structure Transfer (t₀ : ℤ) (peer : Peer) (budget : ℕ) (data : List UInt8) (calls : ℕ)
    (ok : Bool) : Prop where
  outcome : ∀ rest, sendLoop ((List.range calls).map peer ++ rest) data
    (reflowSendBudgetStart t₀ budget) t₀ =
    ⟨ok, data.take (takenBy peer calls), clockAt t₀ peer calls, rest⟩
  so_far : ∀ m ≤ calls, (sendLoop ((List.range m).map peer) data
    (reflowSendBudgetStart t₀ budget) t₀).accepted = data.take (takenBy peer m)
  ok_iff : ok = true ↔ data.take (takenBy peer calls) = data
  gives_up : ∀ i < calls, Late t₀ peer budget i ∨ Dead peer i ↔ i + 1 = calls ∧ ok = false
  never_dropped : (∀ i < calls, ¬Late t₀ peer budget i ∧ ¬Dead peer i) → ok = true

theorem Settles.transfer {t₀ : ℤ} {peer : Peer} {budget : ℕ} (hbudget : 0 < budget)
    {data : List UInt8} {calls : ℕ} {ok : Bool} (h : Settles t₀ peer budget data 0 calls ok) :
    Transfer t₀ peer budget data calls ok := by
  have hstart : reflowSendBudgetStart t₀ budget = ⟨t₀, budget, true⟩ := by
    simp [reflowSendBudgetStart, hbudget]
  have hzero : takenBy peer 0 = 0 := rfl
  constructor
  case outcome =>
    intro rest
    have houtcome := h.outcome rest
    rw [Nat.zero_add, hzero, List.drop_zero, ← List.range_eq_range'] at houtcome
    rw [hstart]
    exact houtcome
  case so_far =>
    intro m hm
    have hso := h.so_far m hm
    rw [Nat.zero_add, hzero, List.drop_zero, ← List.range_eq_range'] at hso
    rw [hstart]
    exact hso
  case ok_iff =>
    have hwithin := h.within.2
    rw [Nat.zero_add] at hwithin
    rw [h.ok_iff, Nat.zero_add]
    constructor
    · intro hall
      rw [hall, List.take_length]
    · intro hall
      have hlen := congrArg List.length hall
      rw [List.length_take] at hlen
      omega
  case gives_up =>
    intro i hi
    have hgives := h.gives_up i (Nat.zero_le i) (by omega)
    rwa [Nat.zero_add] at hgives
  case never_dropped =>
    intro hgood
    by_contra hbad
    have hfalse := Bool.eq_false_of_not_eq_true hbad
    have hcount : calls ≠ 0 := fun hnone => hbad (h.silent hnone)
    have hlast := (h.gives_up (calls - 1) (Nat.zero_le _) (by omega)).mpr ⟨by omega, hfalse⟩
    obtain ⟨hlate, hdead⟩ := hgood (calls - 1) (by omega)
    exact hlast.elim hlate hdead

/-- Against any peer that keeps the promises of `zsock_send`, a transfer ends after a number
of calls bounded by the data and the budget. -/
theorem send_all_bounded {budget : ℕ} (hbudget : 0 < budget) (data : List UInt8) (t₀ : ℤ)
    {peer : Peer} (hlaw : Lawful peer data.length) :
    ∃ calls ok, calls ≤ data.length * (budget + 2) + (budget + 1) ∧
      Transfer t₀ peer budget data calls ok := by
  have hcalls : callsLeft t₀ peer budget data.length 0 =
      data.length * (budget + 2) + (budget + 1) := by
    simp [callsLeft, takenBy, clockAt, lastMoved]
  have htaken : takenBy peer 0 ≤ data.length := Nat.zero_le _
  have hquiet : clockAt t₀ peer 0 - lastMoved t₀ peer 0 ≤ budget := by simp [clockAt, lastMoved]
  obtain ⟨calls, ok, hle, h⟩ := settles_of_calls_left hlaw htaken hquiet hcalls.le
  exact ⟨calls, ok, hle, h.transfer hbudget⟩

/-- A peer that reads a byte every hundred milliseconds. -/
def tricklePeer : Peer := fun i => if i % 2 = 0 then ⟨.again, 100⟩ else ⟨.sent 1, 0⟩

theorem tricklePeer_lawful (len : ℕ) : Lawful tricklePeer len where
  count_le i k hresult := by
    have hone : k ≤ 1 := by
      simp only [tricklePeer] at hresult
      split at hresult
      · cases hresult
      · exact (SendResult.sent.inj hresult).ge
    omega
  again_takes i hresult := by
    simp only [tricklePeer] at hresult ⊢
    split
    · decide
    · next hodd => rw [if_neg hodd] at hresult; cases hresult

theorem send_all_bounded_trickle : ∃ calls ok, calls ≤ 3 * (500 + 2) + (500 + 1) ∧
    Transfer 0 tricklePeer 500 [1, 2, 3] calls ok :=
  send_all_bounded (by decide) [1, 2, 3] 0 (tricklePeer_lawful 3)

end ReflowOven.SendProgress

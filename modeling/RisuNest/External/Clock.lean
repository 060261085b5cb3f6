import RisuNest.External.Contract

/-! Clock of the external storage: samples of a server's time, and the state that says whether
this device's wall clock may judge a foreign lease (`clock.rs`, and the clock of `leases.rs`). -/
namespace RisuNest.External

/-! ### Durations -/

def minuteMs : ℕ := 60000
def leaseTtlMs : ℕ := 60*minuteMs
def renewAfterMs : ℕ := 15*minuteMs
def controlDeadlineMs : ℕ := minuteMs

def maxDiscontinuityMs : ℕ := 5000
def maxServerOffsetMs : ℕ := 300000
def relativeClockErrorMs : ℕ := 10*minuteMs + 2*maxDiscontinuityMs

/-- `u64::MAX` -/
def u64Max : ℕ := 2^64-1

def checkedExpiry (createdAtMs : ℕ) : Option ℕ :=
  if createdAtMs + leaseTtlMs ≤ u64Max then some (createdAtMs + leaseTtlMs) else none

def foreignLeaseExpired (expiresAtMs trustedNowMs : ℕ) : Bool :=
  decide (expiresAtMs + relativeClockErrorMs ≤ u64Max) &&
    decide (expiresAtMs + relativeClockErrorMs ≤ trustedNowMs)

lemma relativeClockErrorMs_eq :
    relativeClockErrorMs = 2*(maxServerOffsetMs + maxDiscontinuityMs) := rfl

lemma checkedExpiry_eq_some {createdAtMs expires : ℕ}
    (h : checkedExpiry createdAtMs = some expires) : expires = createdAtMs + leaseTtlMs := by
  unfold checkedExpiry at h
  by_cases hb : createdAtMs + leaseTtlMs ≤ u64Max
  · rw [if_pos hb] at h
    exact (Option.some.inj h).symm
  · rw [if_neg hb] at h
    contradiction

lemma foreignLeaseExpired_le {expires now : ℕ} (h : foreignLeaseExpired expires now = true) :
    expires + relativeClockErrorMs ≤ now := by
  unfold foreignLeaseExpired at h
  rw [Bool.and_eq_true,decide_eq_true_eq,decide_eq_true_eq] at h
  exact h.2

/-! ### Samples -/

/-- What `clock::failure` answers with: the kind and the detail of its error. -/
structure ClockFailure where
  kind : ErrorKind
  detail : String

def failure (stage reason facts : String) : ClockFailure :=
  ⟨.clockSkew,
    if facts.isEmpty then s!"stage={stage} reason={reason}"
    else s!"stage={stage} reason={reason} {facts}"⟩

def movement (before after elapsed : ℕ) : ℤ := after - before - elapsed

/-- How far a sample lets the wall clock be from the server's, as `validate_sample` counts it. -/
def offsetBound (date before after rtt : ℕ) : ℤ :=
  let delta := movement before after rtt
  let localMid : ℤ := (before + after)/2
  let serverMid : ℤ := date + 500
  let uncertainty : ℤ := (rtt + 1)/2 + 500 + (|delta| + 1)/2
  |serverMid - localMid| + uncertainty

def validateSample (date before after rtt : ℕ) : Except ClockFailure Unit :=
  let delta := movement before after rtt
  if |delta| > maxDiscontinuityMs then
    .error (failure "sample" "wall-clock-jump"
      s!"delta_ms={delta} limit_ms={maxDiscontinuityMs} rtt_ms={rtt}")
  else
    let bound := offsetBound date before after rtt
    if bound > maxServerOffsetMs then
      .error (failure "sample" "server-offset"
        s!"offset_bound_ms={bound} limit_ms={maxServerOffsetMs} delta_ms={delta} rtt_ms={rtt}")
    else .ok ()

/-- Facts from one successful response. -/
structure TimeSample where
  dateMs : Option ℕ
  localBeforeMs : ℕ
  localAfterMs : ℕ
  roundTripMs : ℕ
  cacheBypassed : Bool
  cacheHit : Bool
  ageMs : Option ℕ
  status : ℕ
  deriving DecidableEq

def TimeSample.trusted (sample : TimeSample) : Bool :=
  match sample.dateMs with
  | none => false
  | some dateMs =>
    if !sample.cacheBypassed || sample.cacheHit || sample.ageMs.any (0 < ·) ||
        !(decide (200 ≤ sample.status) && decide (sample.status < 300)) then false
    else (validateSample dateMs sample.localBeforeMs sample.localAfterMs
      sample.roundTripMs).isOk

lemma TimeSample.trusted_bound {sample : TimeSample} (h : sample.trusted = true) :
    ∃ date, sample.dateMs = some date ∧
      offsetBound date sample.localBeforeMs sample.localAfterMs sample.roundTripMs ≤
        maxServerOffsetMs := by
  unfold TimeSample.trusted at h
  split at h
  · contradiction
  · next date hd =>
    refine ⟨date,hd,?_⟩
    split at h
    · contradiction
    · unfold validateSample at h
      dsimp only at h
      split at h
      · contradiction
      · split at h
        · contradiction
        · next hb => exact not_lt.mp hb

/-- `Date` names the second in which the server answered. -/
def serverDate (answeredAt : ℕ) : ℕ := answeredAt/1000*1000

lemma wall_within_offsetBound {sentAt answeredAt receivedAt : ℕ} (hs : sentAt ≤ answeredAt)
    (hr : answeredAt ≤ receivedAt) (before after : ℕ) :
    |(after : ℤ) - receivedAt| ≤
      offsetBound (serverDate answeredAt) before after (receivedAt - sentAt) := by
  unfold offsetBound serverDate movement
  dsimp only
  generalize hd : (after : ℤ) - before - ((receivedAt - sentAt : ℕ) : ℤ) = delta
  have h1 := le_abs_self delta
  have h2 := neg_abs_le delta
  have h3 := le_abs_self
    (((answeredAt/1000*1000 : ℕ) : ℤ) + 500 - ((before : ℤ) + after)/2)
  have h4 := neg_abs_le
    (((answeredAt/1000*1000 : ℕ) : ℤ) + 500 - ((before : ℤ) + after)/2)
  rw [abs_le]
  constructor <;> omega

lemma rtt_le_offsetBound (date before after rtt : ℕ) :
    (rtt : ℤ) ≤ 2*offsetBound date before after rtt := by
  unfold offsetBound
  dsimp only
  have h1 := abs_nonneg (movement before after rtt)
  have h2 := abs_nonneg ((date : ℤ) + 500 - ((before : ℤ) + after)/2)
  omega

/-! ### State -/

/-- What a device's clock shows. -/
structure ClockReading where
  wallMs : ℕ
  monotonicMs : ℕ
  epoch : ℕ
  foreground : Bool
  trusted : Bool
  deriving DecidableEq

/-- Readings of both clocks, as (wall, monotonic). -/
structure ClockState where
  previous : Option (ℕ × ℕ)
  verifiedAt : Option (ℕ × ℕ)
  foreground : Bool
  epoch : ℕ
  deriving DecidableEq

/-- `SystemLeaseClock::default` -/
def ClockState.initial : ClockState := ⟨none,none,true,0⟩

namespace ClockState

def invalidate (s : ClockState) : ClockState :=
  if s.epoch + 1 ≤ u64Max then { s with verifiedAt := none, epoch := s.epoch + 1 }
  else { s with verifiedAt := none, foreground := false }

/-- The test of `observe_reading` against an earlier reading. -/
def discontinuous (wallMs monotonicMs : ℕ) (before : ℕ × ℕ) : Bool :=
  decide (monotonicMs < before.2) ||
    decide (|movement before.1 wallMs (monotonicMs - before.2)| > maxDiscontinuityMs)

def observeReading (s : ClockState) (wallMs monotonicMs : ℕ) : ClockState :=
  let s := if s.previous.any (discontinuous wallMs monotonicMs) ||
    s.verifiedAt.any (discontinuous wallMs monotonicMs) then s.invalidate else s
  { s with previous := some (wallMs,monotonicMs) }

def readingWith (s : ClockState) (wall monotonic : Option ℕ) : ClockState × ClockReading :=
  let wallMs := wall.getD 0
  let monotonicMs := monotonic.getD u64Max
  let s := s.observeReading wallMs monotonicMs
  (s,
    { wallMs := wallMs
      monotonicMs := monotonicMs
      epoch := s.epoch
      foreground := s.foreground && wall.isSome && monotonic.isSome
      trusted := s.foreground && s.verifiedAt.any fun verified =>
        decide (verified.2 ≤ monotonicMs) && decide (monotonicMs - verified.2 < renewAfterMs) })

/-- Whether `observe` takes a sample, with its own reading of the clock. -/
def accepts (s : ClockState) (sample : TimeSample) (now : ClockReading) : Bool :=
  sample.trusted && s.foreground && decide (sample.localAfterMs ≤ now.wallMs) &&
    decide (now.wallMs - sample.localAfterMs ≤ controlDeadlineMs)

/-- `SystemLeaseClock::observe` after its reading: the lock is taken a second time. -/
def observe (s : ClockState) (sample : TimeSample) (now : ClockReading) : ClockState :=
  { s with verifiedAt :=
      if s.accepts sample now then some (now.wallMs,now.monotonicMs) else none }

def setForeground (s : ClockState) (foreground : Bool) : ClockState :=
  let s := if !foreground || decide (s.foreground ≠ foreground) then s.invalidate else s
  { s with foreground := foreground && decide (s.epoch ≠ u64Max) }

@[simp] lemma invalidate_verifiedAt (s : ClockState) : s.invalidate.verifiedAt = none := by
  unfold invalidate
  by_cases h : s.epoch + 1 ≤ u64Max
  · rw [if_pos h]
  · rw [if_neg h]

lemma discontinuous_eq_false {wallMs monotonicMs : ℕ} {before : ℕ × ℕ}
    (h : discontinuous wallMs monotonicMs before = false) :
    before.2 ≤ monotonicMs ∧
      |movement before.1 wallMs (monotonicMs - before.2)| ≤ maxDiscontinuityMs := by
  unfold discontinuous at h
  rw [Bool.or_eq_false_iff,decide_eq_false_iff_not,decide_eq_false_iff_not] at h
  exact ⟨not_lt.mp h.1,not_lt.mp h.2⟩

lemma observeReading_verifiedAt {s : ClockState} {wallMs monotonicMs : ℕ} {v : ℕ × ℕ}
    (h : (s.observeReading wallMs monotonicMs).verifiedAt = some v) :
    s.verifiedAt = some v ∧ discontinuous wallMs monotonicMs v = false := by
  unfold observeReading at h
  dsimp only at h
  split at h
  · rw [invalidate_verifiedAt] at h
    contradiction
  · next hc =>
    refine ⟨h,?_⟩
    rw [Bool.not_eq_true,Bool.or_eq_false_iff] at hc
    simpa [h] using hc.2

lemma readingWith_verifiedAt {s : ClockState} {wall monotonic : Option ℕ} {v : ℕ × ℕ}
    (h : (s.readingWith wall monotonic).1.verifiedAt = some v) : s.verifiedAt = some v :=
  (observeReading_verifiedAt h).1

theorem readingWith_trusted {s : ClockState} {wall : Option ℕ} {monotonicMs : ℕ}
    (h : (s.readingWith wall (some monotonicMs)).2.trusted = true) :
    ∃ v, s.verifiedAt = some v ∧ v.2 ≤ monotonicMs ∧
      |movement v.1 (wall.getD 0) (monotonicMs - v.2)| ≤ maxDiscontinuityMs := by
  unfold readingWith at h
  dsimp only [Option.getD_some] at h
  rw [Bool.and_eq_true] at h
  cases hv : (s.observeReading (wall.getD 0) monotonicMs).verifiedAt with
  | none =>
    rw [hv] at h
    exact absurd h.2 (by simp)
  | some v =>
    obtain ⟨hs,hd⟩ := observeReading_verifiedAt hv
    exact ⟨v,hs,discontinuous_eq_false hd⟩

lemma accepts_trusted {s : ClockState} {sample : TimeSample} {now : ClockReading}
    (h : s.accepts sample now = true) : sample.trusted = true := by
  unfold accepts at h
  simp only [Bool.and_eq_true] at h
  exact h.1.1.1

lemma observe_verifiedAt {s : ClockState} {sample : TimeSample} {now : ClockReading}
    {v : ℕ × ℕ} (h : (s.observe sample now).verifiedAt = some v) :
    s.accepts sample now = true ∧ v = (now.wallMs,now.monotonicMs) := by
  unfold observe at h
  dsimp only at h
  by_cases ha : s.accepts sample now = true
  · rw [if_pos ha] at h
    exact ⟨ha,(Option.some.inj h).symm⟩
  · rw [if_neg ha] at h
    contradiction

lemma setForeground_verifiedAt {s : ClockState} {foreground : Bool} {v : ℕ × ℕ}
    (h : (s.setForeground foreground).verifiedAt = some v) : s.verifiedAt = some v := by
  unfold setForeground at h
  dsimp only at h
  split at h
  · rw [invalidate_verifiedAt] at h
    contradiction
  · exact h

end ClockState
end RisuNest.External

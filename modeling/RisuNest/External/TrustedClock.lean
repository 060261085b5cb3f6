import RisuNest.External.Clock
import RisuNest.Lib.Runs

/-! Runs of the lease clocks of several devices. True time is counted in whole milliseconds, wall
clocks may be corrected at any moment, and monotonic clocks are exact. -/
namespace RisuNest.External

/-! ### Devices -/

/-- A request on its way. `sentAt` is the true time. -/
structure ClockRequest where
  sentAt : ℕ
  localBeforeMs : ℕ
  deriving DecidableEq

/-- A response that `observe` has not read yet, with the true time at which it came. -/
structure ClockAnswer where
  sample : TimeSample
  receivedAt : ℕ
  deriving DecidableEq

/-- A call of `observe` between its reading and its second lock. -/
structure ClockObservation where
  answer : ClockAnswer
  now : ClockReading
  readAt : ℕ
  deriving DecidableEq

structure ClockDevice where
  /-- The wall clock less the true time. -/
  offset : ℤ
  /-- The true time at `SystemLeaseClock::origin`. -/
  origin : ℕ
  clock : ClockState
  requests : List ClockRequest
  answers : List ClockAnswer
  observing : List ClockObservation

namespace ClockDevice

/-- A device whose process starts now. -/
def started (offset : ℤ) (now : ℕ) : ClockDevice := ⟨offset,now,.initial,[],[],[]⟩

/-- `SystemTime::now`, where it fits the milliseconds of the epoch. -/
def wall (d : ClockDevice) (now : ℕ) : Option ℕ :=
  if 0 ≤ now + d.offset ∧ now + d.offset ≤ u64Max then some (now + d.offset).toNat else none

/-- `SystemClock::now_ms`, which the requests use. -/
def wallMs (d : ClockDevice) (now : ℕ) : ℕ := min (now + d.offset).toNat u64Max

/-- Whether the true time since `origin` fits the monotonic clock, which is then exact. -/
def Monotonic (d : ClockDevice) (now : ℕ) : Prop := now - d.origin < u64Max

instance (d : ClockDevice) (now : ℕ) : Decidable (d.Monotonic now) :=
  inferInstanceAs (Decidable (_ < _))

def readingWith (d : ClockDevice) (now : ℕ) : ClockState × ClockReading :=
  d.clock.readingWith (d.wall now) (some (now - d.origin))

/-- What `reading` answers with at this moment. -/
def reading (d : ClockDevice) (now : ℕ) : ClockReading := (d.readingWith now).2

end ClockDevice

/-! ### Steps -/

inductive ClockAction
  /-- A correction of the wall clock, of any size. -/
  | correct (offset : ℤ)
  /-- The process ends and starts again. -/
  | restart
  | request
  /-- A response to a request. The server wrote its date at `answeredAt`, if it wrote one. -/
  | respond (request : ClockRequest) (answeredAt : Option ℕ) (cacheBypassed cacheHit : Bool)
      (ageMs : Option ℕ) (status : ℕ)
  /-- `observe` reads the clock. -/
  | observe (answer : ClockAnswer)
  /-- `observe` takes the sample or drops the verification. -/
  | settle (observation : ClockObservation)
  | read
  | setForeground (foreground : Bool)
  | invalidate
  deriving DecidableEq

namespace ClockDevice

/-- The sample of a response that comes now. -/
def sampleOf (d : ClockDevice) (now : ℕ) (request : ClockRequest) (answeredAt : Option ℕ)
    (cacheBypassed cacheHit : Bool) (ageMs : Option ℕ) (status : ℕ) : TimeSample :=
  { dateMs := (answeredAt.map serverDate).filter fun date => decide (date ≤ u64Max)
    localBeforeMs := request.localBeforeMs
    localAfterMs := d.wallMs now
    roundTripMs := min (now - request.sentAt) u64Max
    cacheBypassed := cacheBypassed
    cacheHit := cacheHit
    ageMs := ageMs
    status := status }

/-- One action of a device at a true time, or `none` where it is not possible. -/
def act (d : ClockDevice) (now : ℕ) : ClockAction → Option ClockDevice
  | .correct offset => some { d with offset := offset }
  | .restart => some (started d.offset now)
  | .request => some { d with requests := ⟨now,d.wallMs now⟩::d.requests }
  | .respond request answeredAt cacheBypassed cacheHit ageMs status =>
    if request ∈ d.requests ∧ ∀ t ∈ answeredAt, request.sentAt ≤ t ∧ t ≤ now then
      some { d with
        requests := d.requests.erase request
        answers := ⟨d.sampleOf now request answeredAt cacheBypassed cacheHit ageMs status,now⟩
          ::d.answers }
    else none
  | .observe answer =>
    if answer ∈ d.answers ∧ d.Monotonic now then
      some { d with
        clock := (d.readingWith now).1
        answers := d.answers.erase answer
        observing := ⟨answer,d.reading now,now⟩::d.observing }
    else none
  | .settle o =>
    if o ∈ d.observing then
      some { d with
        clock := d.clock.observe o.answer.sample o.now
        observing := d.observing.erase o }
    else none
  | .read =>
    if d.Monotonic now then some { d with clock := (d.readingWith now).1 } else none
  | .setForeground foreground => some { d with clock := d.clock.setForeground foreground }
  | .invalidate => some { d with clock := d.clock.invalidate }

end ClockDevice

structure ClockWorld (ι : Type*) where
  now : ℕ
  devices : ι → ClockDevice

inductive ClockEvent (ι : Type*)
  | tick (elapsedMs : ℕ)
  | act (device : ι) (action : ClockAction)

namespace ClockWorld
variable {ι : Type*} [DecidableEq ι]

def step (w : ClockWorld ι) : ClockEvent ι → Option (ClockWorld ι)
  | .tick elapsedMs => some { w with now := w.now + elapsedMs }
  | .act i action =>
    ((w.devices i).act w.now action).map fun d =>
      { w with devices := Function.update w.devices i d }

def reading (w : ClockWorld ι) (i : ι) : ClockReading := (w.devices i).reading w.now

/-- Every device's process has just started, with any wall clock. -/
def Fresh (w : ClockWorld ι) : Prop :=
  ∀ i, w.devices i = .started (w.devices i).offset w.now

abbrev Run (allowed : ClockWorld ι → ClockEvent ι → Prop) : ClockWorld ι → ClockWorld ι → Prop :=
  Runs.Run step allowed

abbrev steps (w : ClockWorld ι) (es : List (ClockEvent ι)) : Option (ClockWorld ι) :=
  Runs.steps step w es

end ClockWorld

/-! ### Corrections between a response and its reading -/

/-- What the wall clock was corrected by from a response to the reading that observes it. -/
def ClockObservation.correction (o : ClockObservation) : ℤ :=
  movement o.answer.sample.localAfterMs o.now.wallMs (o.readAt - o.answer.receivedAt)

/-- The sample's own bound leaves room for the correction since its response. -/
def ClockObservation.Accounted (o : ClockObservation) : Prop :=
  ∀ date ∈ o.answer.sample.dateMs,
    offsetBound date o.answer.sample.localBeforeMs o.answer.sample.localAfterMs
      o.answer.sample.roundTripMs + |o.correction| ≤ maxServerOffsetMs

/-- The condition on a step: a sample is taken only with the correction accounted for. -/
def Corrected {ι : Type*} (w : ClockWorld ι) : ClockEvent ι → Prop
  | .act i (.settle o) =>
    (w.devices i).clock.accepts o.answer.sample o.now = true → o.Accounted
  | _ => True

/-! ### What a device's state says of true time -/

/-- A response's wall clock, at its end, was within the bound of its sample if that is trusted. -/
def ClockAnswer.Sound (a : ClockAnswer) : Prop :=
  a.sample.trusted = true → ∀ date ∈ a.sample.dateMs,
    |(a.sample.localAfterMs : ℤ) - a.receivedAt| ≤
      offsetBound date a.sample.localBeforeMs a.sample.localAfterMs a.sample.roundTripMs

structure ClockDevice.Sound (d : ClockDevice) (now : ℕ) : Prop where
  origin : d.origin ≤ now
  requests : ∀ r ∈ d.requests, r.sentAt ≤ now
  answers : ∀ a ∈ d.answers, a.Sound ∧ a.receivedAt ≤ now
  observing : ∀ o ∈ d.observing, o.answer.Sound ∧ o.answer.receivedAt ≤ o.readAt ∧
    o.readAt ≤ now ∧ o.now.monotonicMs + d.origin = o.readAt
  verified : ∀ v ∈ d.clock.verifiedAt, v.2 + d.origin ≤ now ∧
    |(v.1 : ℤ) - (v.2 + d.origin : ℕ)| ≤ maxServerOffsetMs

namespace ClockDevice

lemma Sound.started (offset : ℤ) (now : ℕ) : (started offset now).Sound now := by
  refine ⟨le_rfl,?_,?_,?_,?_⟩ <;> intro _ h <;> cases h

lemma Sound.later {d : ClockDevice} {now later : ℕ} (h : d.Sound now) (hl : now ≤ later) :
    d.Sound later where
  origin := h.origin.trans hl
  requests r hr := (h.requests r hr).trans hl
  answers a ha := ⟨(h.answers a ha).1,(h.answers a ha).2.trans hl⟩
  observing o ho := by
    obtain ⟨ha,hr,hn,hm⟩ := h.observing o ho
    exact ⟨ha,hr,hn.trans hl,hm⟩
  verified v hv := ⟨(h.verified v hv).1.trans hl,(h.verified v hv).2⟩

lemma Sound.withClock {d : ClockDevice} {now : ℕ} {clock : ClockState} (h : d.Sound now)
    (hc : ∀ v, clock.verifiedAt = some v → d.clock.verifiedAt = some v) :
    { d with clock := clock }.Sound now :=
  { h with verified := fun v hv => h.verified v (hc v hv) }

lemma sampleOf_sound {d : ClockDevice} {now : ℕ} {request : ClockRequest}
    {answeredAt : Option ℕ} {cacheBypassed cacheHit : Bool} {ageMs : Option ℕ} {status : ℕ}
    (ha : ∀ t ∈ answeredAt, request.sentAt ≤ t ∧ t ≤ now) :
    ClockAnswer.Sound
      ⟨d.sampleOf now request answeredAt cacheBypassed cacheHit ageMs status,now⟩ := by
  intro ht date hd
  obtain ⟨bounded,hb,hle⟩ := TimeSample.trusted_bound ht
  obtain rfl : bounded = date := Option.some.inj (hb.symm.trans hd)
  obtain ⟨hdate,-⟩ := Option.filter_eq_some_iff.mp hd
  obtain ⟨t,hat,rfl⟩ := Option.map_eq_some_iff.mp hdate
  obtain ⟨hst,htn⟩ := ha t hat
  -- a saturated round trip would not have passed
  have hr : (min (now - request.sentAt) u64Max : ℕ) = now - request.sentAt := by
    have h1 := rtt_le_offsetBound (serverDate t) request.localBeforeMs (d.wallMs now)
      (min (now - request.sentAt) u64Max)
    have h2 : offsetBound (serverDate t) request.localBeforeMs (d.wallMs now)
      (min (now - request.sentAt) u64Max) ≤ maxServerOffsetMs := hle
    have h3 : (maxServerOffsetMs : ℤ) = 300000 := rfl
    have h4 : u64Max = 18446744073709551615 := rfl
    omega
  change |((d.wallMs now : ℕ) : ℤ) - now| ≤ offsetBound (serverDate t) request.localBeforeMs
    (d.wallMs now) (min (now - request.sentAt) u64Max)
  rw [hr]
  exact wall_within_offsetBound hst htn _ _

lemma settle_verified {d : ClockDevice} {now : ℕ} {o : ClockObservation} (h : d.Sound now)
    (ho : o ∈ d.observing) (ha : d.clock.accepts o.answer.sample o.now = true)
    (hc : o.Accounted) :
    o.now.monotonicMs + d.origin ≤ now ∧
      |(o.now.wallMs : ℤ) - (o.now.monotonicMs + d.origin : ℕ)| ≤ maxServerOffsetMs := by
  obtain ⟨hs,hr,hn,hm⟩ := h.observing o ho
  have ht : o.answer.sample.trusted = true := ClockState.accepts_trusted ha
  obtain ⟨date,hd,-⟩ := TimeSample.trusted_bound ht
  have h1 := hs ht date hd
  have h2 := hc date hd
  refine ⟨hm.trans_le hn,?_⟩
  have hsum : (o.now.wallMs : ℤ) - (o.now.monotonicMs + d.origin : ℕ) =
      (o.answer.sample.localAfterMs - o.answer.receivedAt) + o.correction := by
    unfold ClockObservation.correction movement
    omega
  rw [hsum]
  have h3 := abs_add_le ((o.answer.sample.localAfterMs : ℤ) - o.answer.receivedAt) o.correction
  linarith

/-- One action, a settled sample with its correction accounted for, keeps what a state says. -/
theorem Sound.act {d e : ClockDevice} {now : ℕ} {action : ClockAction} (h : d.Sound now)
    (hc : ∀ o, action = .settle o → d.clock.accepts o.answer.sample o.now = true → o.Accounted)
    (he : d.act now action = some e) : e.Sound now := by
  cases action with
  | correct offset =>
    obtain rfl := Option.some.inj he
    exact { h with }
  | restart =>
    obtain rfl := Option.some.inj he
    exact .started _ _
  | request =>
    obtain rfl := Option.some.inj he
    refine { h with requests := ?_ }
    intro r hr
    rcases List.mem_cons.mp hr with rfl | hr
    · exact le_rfl
    · exact h.requests r hr
  | respond request answeredAt cacheBypassed cacheHit ageMs status =>
    unfold ClockDevice.act at he
    dsimp only at he
    split at he
    · next hg =>
      obtain rfl := Option.some.inj he
      refine { h with requests := fun r hr => h.requests r (List.mem_of_mem_erase hr), answers := ?_ }
      intro a ha
      rcases List.mem_cons.mp ha with rfl | ha
      · exact ⟨sampleOf_sound hg.2,le_rfl⟩
      · exact h.answers a ha
    · contradiction
  | observe answer =>
    unfold ClockDevice.act at he
    dsimp only at he
    split at he
    · next hg =>
      obtain rfl := Option.some.inj he
      have hk : { d with clock := (d.readingWith now).1 }.Sound now :=
        h.withClock fun v hv => ClockState.readingWith_verifiedAt hv
      refine { hk with answers := fun a ha => h.answers a (List.mem_of_mem_erase ha), observing := ?_ }
      intro o ho
      rcases List.mem_cons.mp ho with rfl | ho
      · refine ⟨(h.answers answer hg.1).1,(h.answers answer hg.1).2,le_rfl,?_⟩
        exact Nat.sub_add_cancel h.origin
      · exact h.observing o ho
    · contradiction
  | settle o =>
    unfold ClockDevice.act at he
    dsimp only at he
    split at he
    · next ho =>
      obtain rfl := Option.some.inj he
      refine { h with observing := fun p hp => h.observing p (List.mem_of_mem_erase hp), verified := ?_ }
      intro v hv
      obtain ⟨ha,rfl⟩ := ClockState.observe_verifiedAt hv
      have hb := settle_verified h ho ha (hc o rfl ha)
      exact hb
    · contradiction
  | read =>
    unfold ClockDevice.act at he
    dsimp only at he
    split at he
    · obtain rfl := Option.some.inj he
      exact h.withClock fun v hv => ClockState.readingWith_verifiedAt hv
    · contradiction
  | setForeground foreground =>
    obtain rfl := Option.some.inj he
    exact h.withClock fun v hv => ClockState.setForeground_verifiedAt hv
  | invalidate =>
    obtain rfl := Option.some.inj he
    refine h.withClock fun v hv => ?_
    change d.clock.invalidate.verifiedAt = some v at hv
    rw [ClockState.invalidate_verifiedAt] at hv
    contradiction

/-- A trusted reading is within the bound of true time. -/
theorem Sound.reading_bound {d : ClockDevice} {now : ℕ} (h : d.Sound now)
    (ht : (d.reading now).trusted = true) :
    |((d.reading now).wallMs : ℤ) - now| ≤ maxServerOffsetMs + maxDiscontinuityMs := by
  obtain ⟨v,hv,hle,hm⟩ := ClockState.readingWith_trusted ht
  obtain ⟨-,hb⟩ := h.verified v hv
  have ho := h.origin
  change |((((d.wall now).getD 0 : ℕ)) : ℤ) - now| ≤ _
  have hsum : (((d.wall now).getD 0 : ℕ) : ℤ) - now =
      ((v.1 : ℤ) - (v.2 + d.origin : ℕ)) +
        movement v.1 ((d.wall now).getD 0) (now - d.origin - v.2) := by
    unfold movement
    omega
  rw [hsum]
  have h3 := abs_add_le ((v.1 : ℤ) - (v.2 + d.origin : ℕ))
    (movement v.1 ((d.wall now).getD 0) (now - d.origin - v.2))
  linarith

end ClockDevice

namespace ClockWorld
variable {ι : Type*} [DecidableEq ι]

/-- What the states of all devices say of true time. -/
def Sound (w : ClockWorld ι) : Prop := ∀ i, (w.devices i).Sound w.now

omit [DecidableEq ι] in
lemma Fresh.sound {w : ClockWorld ι} (h : w.Fresh) : w.Sound := by
  intro i
  rw [h i]
  exact .started _ _

lemma Sound.step {w v : ClockWorld ι} {e : ClockEvent ι} (h : w.Sound) (hc : Corrected w e)
    (he : w.step e = some v) : v.Sound := by
  cases e with
  | tick elapsedMs =>
    obtain rfl := Option.some.inj he
    exact fun i => (h i).later (Nat.le_add_right _ _)
  | act i action =>
    obtain ⟨d,hd,rfl⟩ := Option.map_eq_some_iff.mp he
    have hs : d.Sound w.now := (h i).act (by rintro o rfl; exact hc) hd
    intro j
    by_cases hj : j = i
    · subst j
      simpa using hs
    · simpa [Function.update_of_ne hj] using h j

lemma sound_of_run {w v : ClockWorld ι} (h : Run Corrected w v) (hw : w.Sound) : v.Sound :=
  Runs.Run.keeps (fun _ _ _ hs hc he => hs.step hc he) h hw

omit [DecidableEq ι] in
lemma Sound.lease_outlived {w v : ClockWorld ι} (hw : w.Sound) (hv : v.Sound)
    {creator judge : ι} {expires : ℕ} (hc : (w.reading creator).trusted = true)
    (he : checkedExpiry (w.reading creator).wallMs = some expires)
    (hj : (v.reading judge).trusted = true)
    (hx : foreignLeaseExpired expires (v.reading judge).wallMs = true) :
    w.now + leaseTtlMs ≤ v.now ∧
      ((v.reading creator).trusted = true → expires ≤ (v.reading creator).wallMs) := by
  have h1 := abs_le.mp ((hw creator).reading_bound hc)
  have h2 := abs_le.mp ((hv judge).reading_bound hj)
  have h3 := checkedExpiry_eq_some he
  have h4 := foreignLeaseExpired_le hx
  rw [relativeClockErrorMs_eq] at h4
  change _ ≤ ((w.reading creator).wallMs : ℤ) - _ ∧ _ at h1
  change _ ∧ ((v.reading judge).wallMs : ℤ) - _ ≤ _ at h2
  refine ⟨by omega,fun hk => ?_⟩
  have h5 := abs_le.mp ((hv creator).reading_bound hk)
  change _ ≤ ((v.reading creator).wallMs : ℤ) - _ ∧ _ at h5
  omega

/-- In every run that takes samples only with the corrections since their responses accounted
for, a trusted reading is within half of `RELATIVE_CLOCK_ERROR_MS` of true time, and a lease whose
creator was trusted is not judged expired by a trusted reading before its time is over. -/
theorem trusted_readings_in_bound {start w : ClockWorld ι} (hs : start.Fresh)
    (hr : Run Corrected start w) :
    (∀ i, (w.reading i).trusted = true →
      |((w.reading i).wallMs : ℤ) - w.now| ≤ maxServerOffsetMs + maxDiscontinuityMs ∧
        2*|((w.reading i).wallMs : ℤ) - w.now| ≤ relativeClockErrorMs) ∧
    ∀ v, Run Corrected w v → ∀ creator judge expires,
      (w.reading creator).trusted = true →
      checkedExpiry (w.reading creator).wallMs = some expires →
      (v.reading judge).trusted = true →
      foreignLeaseExpired expires (v.reading judge).wallMs = true →
      w.now + leaseTtlMs ≤ v.now ∧
        ((v.reading creator).trusted = true → expires ≤ (v.reading creator).wallMs) := by
  have hw : w.Sound := sound_of_run hr hs.sound
  constructor
  · intro i ht
    have hb : |((w.reading i).wallMs : ℤ) - w.now| ≤ maxServerOffsetMs + maxDiscontinuityMs :=
      (hw i).reading_bound ht
    refine ⟨hb,?_⟩
    rw [relativeClockErrorMs_eq]
    omega
  · intro v hv creator judge expires hc he hj hx
    exact hw.lease_outlived (sound_of_run hv hw) hc he hj hx

/-! ### A correction that is not accounted for -/

/-- A device whose sample came with its wall clock `offset` off, and which reads it after a wait
and a correction to `corrected`. -/
def correctedObservation (i : Bool) (offset corrected : ℤ) (now wait : ℕ) :
    List (ClockEvent Bool) :=
  let before := ClockDevice.started offset now
  let after := ClockDevice.started corrected now
  let request : ClockRequest := ⟨now,before.wallMs now⟩
  let answer : ClockAnswer := ⟨before.sampleOf now request (some now) true false none 200,now⟩
  let reading : ClockReading := ⟨(after.wall (now + wait)).getD 0,wait,0,true,false⟩
  [.act i (.correct offset),.act i .restart,.act i .request,
    .act i (.respond request (some now) true false none 200),.tick wait,
    .act i (.correct corrected),.act i (.observe answer),
    .act i (.settle ⟨answer,reading,now + wait⟩)]

def correctedStart : ClockWorld Bool := ⟨1700000000000,fun _ => .started 0 1700000000000⟩

/-- The moments two devices read their clocks at, and what they read. -/
def readingsAfter (creating judging : List (ClockEvent Bool)) :
    Option ((ℕ × ClockReading) × (ℕ × ClockReading)) :=
  (correctedStart.steps creating).bind fun w =>
    (w.steps judging).map fun v => ((w.now,w.reading false),(v.now,v.reading true))

/-- The creator's wall clock is put back while its response waits to be read. -/
def correctedCreator : List (ClockEvent Bool) :=
  correctedObservation false (-299000) (-359000) 1700000000000 60000

/-- Fifty-nine minutes later, the judge's is put forward. -/
def correctedJudge : List (ClockEvent Bool) :=
  .tick 3540000::correctedObservation true 299000 359000 1700003600000 0

/-- A correction between a response and the reading that observes it is not noticed: both clocks
are trusted although each is 359 seconds off, and the judge takes a lease for expired 59 minutes
after its creation. -/
theorem a_correction_before_the_reading_is_missed :
    correctedStart.Fresh ∧ ∃ w v : ClockWorld Bool,
      Run (fun _ _ => True) correctedStart w ∧ Run (fun _ _ => True) w v ∧
      (w.reading false).trusted = true ∧ (v.reading true).trusted = true ∧
      ¬ |((v.reading true).wallMs : ℤ) - v.now| ≤ maxServerOffsetMs + maxDiscontinuityMs ∧
      ∃ expires, checkedExpiry (w.reading false).wallMs = some expires ∧
        foreignLeaseExpired expires (v.reading true).wallMs = true ∧
        ¬ w.now + leaseTtlMs ≤ v.now := by
  have hr : readingsAfter correctedCreator correctedJudge =
      some ((1700000060000,⟨1699999701000,60000,0,true,true⟩),
        (1700003600000,⟨1700003959000,0,0,true,true⟩)) := by
    decide +kernel
  obtain ⟨w,hw,hr⟩ := Option.bind_eq_some_iff.mp hr
  obtain ⟨v,hv,hr⟩ := Option.map_eq_some_iff.mp hr
  simp only [Prod.mk.injEq] at hr
  obtain ⟨⟨hwn,hwr⟩,hvn,hvr⟩ := hr
  refine ⟨fun _ => rfl,w,v,.of_steps hw (Runs.meetAll_true _ _),
    .of_steps hv (Runs.meetAll_true _ _),?_,?_,?_,1700003301000,?_,?_,?_⟩
  · rw [hwr]
  · rw [hvr]
  · rw [hvr,hvn]
    decide
  · rw [hwr]
    decide
  · rw [hvr]
    decide
  · rw [hwn,hvn]
    decide

/-- Both devices read their samples at once, the judge 71 minutes after the creator. -/
def steadyCreator : List (ClockEvent Bool) :=
  correctedObservation false (-299000) (-299000) 1700000000000 0
def steadyJudge : List (ClockEvent Bool) :=
  .tick 4260000::correctedObservation true 299000 299000 1700004260000 0

instance (o : ClockObservation) : Decidable o.Accounted :=
  inferInstanceAs (Decidable (∀ date ∈ o.answer.sample.dateMs, _ ≤ _))

instance {ι : Type*} (w : ClockWorld ι) (e : ClockEvent ι) : Decidable (Corrected w e) :=
  match e with
  | .tick _ => .isTrue trivial
  | .act _ action =>
    match action with
    | .settle _ => inferInstanceAs (Decidable (_ = true → ClockObservation.Accounted _))
    | .correct _ | .restart | .request | .respond .. | .observe _ | .read | .setForeground _
    | .invalidate => .isTrue trivial

theorem trusted_readings_in_bound_steady :
    ∃ w v : ClockWorld Bool,
      |((w.reading false).wallMs : ℤ) - w.now| ≤ maxServerOffsetMs + maxDiscontinuityMs ∧
        foreignLeaseExpired ((w.reading false).wallMs + leaseTtlMs)
          (v.reading true).wallMs = true ∧
        w.now + leaseTtlMs ≤ v.now := by
  have hr : readingsAfter steadyCreator steadyJudge =
      some ((1700000000000,⟨1699999701000,0,0,true,true⟩),
        (1700004260000,⟨1700004559000,0,0,true,true⟩)) := by
    decide +kernel
  have hm : Runs.MeetAll step Corrected correctedStart steadyCreator := by decide
  have hn : ∀ w ∈ correctedStart.steps steadyCreator, Runs.MeetAll step Corrected w steadyJudge := by
    decide +kernel
  obtain ⟨w,hw,hr⟩ := Option.bind_eq_some_iff.mp hr
  obtain ⟨v,hv,hr⟩ := Option.map_eq_some_iff.mp hr
  simp only [Prod.mk.injEq] at hr
  obtain ⟨⟨-,hwr⟩,-,hvr⟩ := hr
  obtain ⟨hb,hl⟩ := trusted_readings_in_bound (fun _ => rfl) (.of_steps hw hm)
  have hx : foreignLeaseExpired ((w.reading false).wallMs + leaseTtlMs)
      (v.reading true).wallMs = true := by
    rw [hwr,hvr]
    decide
  have he : checkedExpiry (w.reading false).wallMs =
      some ((w.reading false).wallMs + leaseTtlMs) := by
    rw [hwr]
    decide
  have hw' : (w.reading false).trusted = true := by rw [hwr]
  have hv' : (v.reading true).trusted = true := by rw [hvr]
  exact ⟨w,v,(hb false hw').1,hx,
    (hl v (.of_steps hv (hn w hw)) false true _ hw' he hv' hx).1⟩

end ClockWorld
end RisuNest.External

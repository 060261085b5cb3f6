import RisuNest.Lib.Checked
import RisuNest.Wire.Stamp
import Mathlib.Data.Real.Basic
import Mathlib.Order.Interval.Set.UnorderedInterval
import Mathlib.Tactic.Linarith

/-! Samples of a target's clock, and the bound they put on the stamps of that target
(`stamp.rs`). -/
namespace RisuNest.Wire

def maxClockDiscontinuityMs : ℕ := 5000
def clockSampleLifetimeMs : ℕ := 900000

/-- Times are captured around one fresh response of the target. -/
structure ClockSample where
  targetId : String
  requestWallMs : ℕ
  responseWallMs : ℕ
  requestMonotonicMs : ℕ
  responseMonotonicMs : ℕ
  targetMs : ℕ
  precisionMs : ℕ
  successful : Bool
  cachedOrAged : Bool
  deriving DecidableEq

structure AdmittedClock where
  targetId : String
  sampledMonotonicMs : ℕ
  targetUpperMs : ℕ
  deriving DecidableEq

/-- The numbers of a sample are `u64`. -/
structure ClockSample.Typed (s : ClockSample) : Prop where
  requestWall : s.requestWallMs < 2^64
  responseWall : s.responseWallMs < 2^64
  responseMonotonic : s.responseMonotonicMs < 2^64
  target : s.targetMs < 2^64
  precision : s.precisionMs < 2^64

section
variable {σ : Type}

/-- A value that is computed in an `i128`. -/
@[irreducible] def i128 (n : ℤ) : Checked σ WireError ℤ := if -2^127 ≤ n ∧ n < 2^127 then pure n else .panic

/-- A value that is computed in a `u64`. -/
@[irreducible] def u64 (n : ℕ) : Checked σ WireError ℕ := if n < 2^64 then pure n else .panic

lemma ends_i128 {fails : WireError → Prop} {n : ℤ} (h : -2^127 ≤ n) (h' : n < 2^127) :
    Checked.Ends fails (i128 n : Checked σ WireError ℤ) fun v => v = n := by
  unfold i128
  rw [if_pos ⟨h,h'⟩]
  exact Checked.Ends.pure rfl

lemma ends_u64 {fails : WireError → Prop} {n : ℕ} (h : n < 2^64) :
    Checked.Ends fails (u64 n : Checked σ WireError ℕ) fun v => v = n := by
  unfold u64
  rw [if_pos h]
  exact Checked.Ends.pure rfl

lemma ends_require {fails : WireError → Prop} {p : Prop} [Decidable p] {e : WireError}
    (h : fails e) :
    Checked.Ends fails (Checked.attempt (require p e) : Checked σ WireError Unit) fun _ => p := by
  refine Checked.Ends.attempt (fun _ hp => require_eq_ok.mp hp) fun e' he => ?_
  rw [(require_eq_error.mp he).2] at h
  exact h

end

namespace ClockSample

/-- The time between the request and the response. -/
def elapsed (s : ClockSample) : ℕ := s.responseMonotonicMs - s.requestMonotonicMs

/-- The local clock was corrected by this much between the request and the response. -/
def movement (s : ClockSample) : ℤ := s.responseWallMs - s.requestWallMs - s.elapsed

/-- `admit` -/
def admitClock (s : ClockSample) : Checked Unit WireError AdmittedClock := do
  .attempt (require (s.targetId ≠ "" ∧ s.successful = true ∧ s.cachedOrAged = false)
    ⟨"clock-sample-invalid"⟩)
  .attempt (require (s.requestMonotonicMs ≤ s.responseMonotonicMs) ⟨"clock-discontinuity"⟩)
  let walls ← i128 (s.responseWallMs - s.requestWallMs)
  let movement ← i128 (walls - s.elapsed)
  let moved ← i128 movement.natAbs
  .attempt (require (moved ≤ maxClockDiscontinuityMs) ⟨"clock-discontinuity"⟩)
  let walls ← i128 (s.requestWallMs + s.responseWallMs)
  let half ← u64 (s.elapsed/2 + s.elapsed%2)
  .attempt (require (half + s.precisionMs < 2^64) ⟨"clock-overflow"⟩)
  -- A local correction widens the offset proof, not the bound that is derived from the target.
  let apart ← i128 (walls.tdiv 2 - s.targetMs)
  let apart ← i128 apart.natAbs
  let reach ← i128 (apart + (half + s.precisionMs : ℕ))
  let moved ← i128 (moved + 1)
  let offsetBound ← i128 (reach + moved.tdiv 2)
  .attempt (require (offsetBound ≤ maxClockSkewMs) ⟨"clock-skew"⟩)
  .attempt (require (s.targetMs + (half + s.precisionMs) < 2^64) ⟨"clock-overflow"⟩)
  pure ⟨s.targetId,s.responseMonotonicMs,s.targetMs + (half + s.precisionMs)⟩

/-- Half of the elapsed time, rounded up. -/
def halfElapsed (s : ClockSample) : ℕ := s.elapsed/2 + s.elapsed%2

/-- What an admitted sample satisfies. -/
structure Admits (s : ClockSample) (a : AdmittedClock) : Prop where
  ordered : s.requestMonotonicMs ≤ s.responseMonotonicMs
  offset : (((s.requestWallMs + s.responseWallMs : ℤ)/2 - s.targetMs).natAbs : ℤ) +
    (s.halfElapsed + s.precisionMs) + ((s.movement.natAbs : ℤ) + 1)/2 ≤ 300000
  clock : a = ⟨s.targetId,s.responseMonotonicMs,s.targetMs + (s.halfElapsed + s.precisionMs)⟩

/-- No step of `admit` leaves the range of its integers. -/
theorem ends_admitClock {s : ClockSample} (h : s.Typed) :
    Checked.Ends (fun _ => True) s.admitClock s.Admits := by
  obtain ⟨h1,h2,h3,h4,h5⟩ := h
  unfold admitClock
  refine .bind (ends_require trivial) fun _ _ => .bind (ends_require trivial) fun _ ho => ?_
  have he : s.elapsed < 2^64 := by unfold elapsed; omega
  refine .bind (ends_i128 (by omega) (by omega)) fun walls hw => ?_
  refine .bind (ends_i128 (by omega) (by omega)) fun movement hm => ?_
  refine .bind (ends_i128 (by omega) (by omega)) fun moved hmoved => ?_
  refine .bind (ends_require trivial) fun _ hsmall => ?_
  refine .bind (ends_i128 (by omega) (by omega)) fun sum hsum => ?_
  refine .bind (ends_u64 (by omega)) fun half hhalf => ?_
  refine .bind (ends_require trivial) fun _ hunc => ?_
  have hmid : sum.tdiv 2 = sum/2 := Int.tdiv_eq_ediv_of_nonneg (by omega)
  rw [hmid]
  refine .bind (ends_i128 (by omega) (by omega)) fun apart hapart => ?_
  refine .bind (ends_i128 (by omega) (by omega)) fun away haway => ?_
  refine .bind (ends_i128 (by omega) (by omega)) fun reach hreach => ?_
  refine .bind (ends_i128 (by omega) (by omega)) fun more hmore => ?_
  have hcorr : more.tdiv 2 = more/2 := Int.tdiv_eq_ediv_of_nonneg (by omega)
  rw [hcorr]
  refine .bind (ends_i128 (by omega) (by omega)) fun bound hbound => ?_
  refine .bind (ends_require trivial) fun _ hskew => .bind (ends_require trivial) fun _ _ => ?_
  refine .pure ⟨ho,?_,by rw [hhalf]; rfl⟩
  change bound ≤ 300000 at hskew
  unfold halfElapsed ClockSample.movement
  subst hw hm hmoved hsum hhalf hapart haway hreach hmore hbound
  push_cast at hskew ⊢
  omega

lemma ne_panic {s : ClockSample} (h : s.Typed) : s.admitClock () ≠ .error .panic := by
  intro hp
  have := ends_admitClock h ()
  rw [hp] at this
  exact this

lemma admits_of_ok {s : ClockSample} (h : s.Typed) {a : AdmittedClock}
    (ha : s.admitClock () = .ok (a,())) : s.Admits a := by
  have := ends_admitClock h ()
  rw [ha] at this
  exact this

lemma Admits.reach {s : ClockSample} {a : AdmittedClock} (h : s.Admits a) :
    ∃ middle spread : ℤ, spread = s.halfElapsed + ((s.movement.natAbs : ℤ) + 1)/2 ∧
      s.requestWallMs + s.elapsed + max s.movement 0 ≤ middle + spread ∧
      middle - spread ≤ s.requestWallMs + min s.movement 0 ∧
      middle - s.targetMs + spread + s.precisionMs ≤ 300000 ∧
      s.targetMs - middle + spread + s.precisionMs ≤ 300000 := by
  obtain ⟨ho,hoffset,-⟩ := h
  refine ⟨(s.requestWallMs + s.responseWallMs : ℤ)/2,_,rfl,?_⟩
  unfold halfElapsed at hoffset ⊢
  unfold movement at hoffset ⊢
  omega

/-- An admitted sample proves that the local clock is within the skew of the target: at every
instant of the request, whatever the target's true time there within its precision, and however
much of the local correction had been made by then. Nothing overflows on the way. -/
theorem admit_bounds_the_offset {s : ClockSample} (hs : s.Typed) :
    s.admitClock () ≠ .error .panic ∧
    ∀ a, s.admitClock () = .ok (a,()) → ∀ m trueMs correction localMs : ℝ,
      s.requestMonotonicMs ≤ m → m ≤ s.responseMonotonicMs →
      |trueMs - s.targetMs| ≤ s.precisionMs →
      correction ∈ Set.uIcc (0 : ℝ) (s.movement : ℝ) →
      localMs = s.requestWallMs + (m - s.requestMonotonicMs) + correction →
      |localMs - trueMs| ≤ maxClockSkewMs := by
  refine ⟨ne_panic hs,fun a ha m trueMs correction localMs hm hm' htrue hc hl => ?_⟩
  have hadmits := admits_of_ok hs ha
  obtain ⟨middle,spread,-,hhi,hlo,hplus,hminus⟩ := hadmits.reach
  have helapsed : (s.elapsed : ℝ) = s.responseMonotonicMs - s.requestMonotonicMs :=
    Nat.cast_sub hadmits.ordered
  have hhi : (s.requestWallMs : ℝ) + s.elapsed + max (s.movement : ℝ) 0 ≤ middle + spread := by
    exact_mod_cast hhi
  have hlo : (middle : ℝ) - spread ≤ s.requestWallMs + min (s.movement : ℝ) 0 := by
    exact_mod_cast hlo
  have hplus : (middle : ℝ) - s.targetMs + spread + s.precisionMs ≤ 300000 := by
    exact_mod_cast hplus
  have hminus : (s.targetMs : ℝ) - middle + spread + s.precisionMs ≤ 300000 := by
    exact_mod_cast hminus
  obtain ⟨hc,hc'⟩ := hc
  rw [min_comm] at hc
  rw [max_comm] at hc'
  obtain ⟨ht,ht'⟩ := abs_le.mp htrue
  have hskew : (maxClockSkewMs : ℝ) = 300000 := by
    unfold maxClockSkewMs
    norm_num
  rw [abs_le, hskew, hl]
  constructor <;> linarith

/-- A sample whose target answered in the middle of the request. -/
def middleSample : ClockSample :=
  ⟨"target",1000000,1000100,0,100,1000050,0,true,false⟩

lemma middleSample_typed : middleSample.Typed :=
  ⟨by decide,by decide,by decide,by decide,by decide⟩

theorem admit_bounds_the_offset_middle : middleSample.admitClock () ≠ .error .panic ∧
    |(1000040 : ℝ) - 1000050| ≤ maxClockSkewMs := by
  obtain ⟨hp,h⟩ := admit_bounds_the_offset middleSample_typed
  have hok : middleSample.admitClock () = .ok (⟨"target",100,1000100⟩,()) := by decide +kernel
  refine ⟨hp,h _ hok 40 1000050 0 1000040 ?_ ?_ ?_ Set.left_mem_uIcc ?_⟩ <;>
  norm_num [middleSample]

end ClockSample

namespace AdmittedClock

def incomingUpperMs (a : AdmittedClock) (targetId : String) (now : ℕ) : Result ℕ := do
  require (a.sampledMonotonicMs ≤ now) ⟨"clock-sample-expired"⟩
  require (targetId = a.targetId ∧ now - a.sampledMonotonicMs < clockSampleLifetimeMs)
    ⟨"clock-sample-expired"⟩
  require (a.targetUpperMs + (now - a.sampledMonotonicMs) + maxClockSkewMs < 2^64)
    ⟨"clock-overflow"⟩
  pure (a.targetUpperMs + (now - a.sampledMonotonicMs) + maxClockSkewMs)

def admitIncoming (a : AdmittedClock) (targetId : String) (now : ℕ) (stamp : Stamp) :
    Result Unit := do
  stamp.validate
  let upper ← a.incomingUpperMs targetId now
  require (stamp.physicalMs ≤ upper) ⟨"incoming-clock-skew"⟩

lemma incomingUpperMs_eq {a : AdmittedClock} {now : ℕ} (h : a.sampledMonotonicMs ≤ now)
    (hage : now - a.sampledMonotonicMs < clockSampleLifetimeMs) :
    a.incomingUpperMs a.targetId now =
      if a.targetUpperMs + (now - a.sampledMonotonicMs) + maxClockSkewMs < 2^64 then
        .ok (a.targetUpperMs + (now - a.sampledMonotonicMs) + maxClockSkewMs)
      else .error ⟨"clock-overflow"⟩ := by
  unfold incomingUpperMs
  rw [require_eq_ok.mpr h, require_eq_ok.mpr ⟨rfl,hage⟩]
  by_cases hu : a.targetUpperMs + (now - a.sampledMonotonicMs) + maxClockSkewMs < 2^64
  · rw [if_pos hu, require_eq_ok.mpr hu]
    rfl
  · rw [if_neg hu, require_eq_error.mpr ⟨hu,rfl⟩]
    rfl

end AdmittedClock

namespace ClockSample

/-- The bound on incoming stamps counts from the middle of the request. While the sample lives it
is answered unless it leaves 64 bits. It is an upper bound on what the target may admit if the
target read its clock no earlier than that, and for any reading it falls short by no more than half
of the elapsed time. -/
theorem incoming_bound {s : ClockSample} (hs : s.Typed) {a : AdmittedClock}
    (ha : s.admitClock () = .ok (a,())) {now : ℕ} (hn : s.responseMonotonicMs ≤ now)
    (hage : now - s.responseMonotonicMs < clockSampleLifetimeMs) :
    (s.targetMs + (s.halfElapsed + s.precisionMs) + (now - s.responseMonotonicMs) +
        maxClockSkewMs < 2^64 → (a.incomingUpperMs s.targetId now).isOk = true) ∧
    ∀ upper, a.incomingUpperMs s.targetId now = .ok upper →
      ∀ m trueMs : ℝ, s.requestMonotonicMs ≤ m → m ≤ s.responseMonotonicMs →
        |trueMs - s.targetMs| ≤ s.precisionMs →
        trueMs + (now - m) + maxClockSkewMs ≤ upper + (s.elapsed/2 : ℕ) ∧
        (s.responseMonotonicMs - m ≤ s.halfElapsed →
          trueMs + (now - m) + maxClockSkewMs ≤ upper ∧
          ∀ stamp : Stamp, stamp.validate = .ok () →
            stamp.physicalMs ≤ trueMs + (now - m) + maxClockSkewMs →
            a.admitIncoming s.targetId now stamp = .ok ()) := by
  obtain ⟨hordered,-,hclock⟩ := admits_of_ok hs ha
  have heq : a.incomingUpperMs s.targetId now =
      if s.targetMs + (s.halfElapsed + s.precisionMs) + (now - s.responseMonotonicMs) +
        maxClockSkewMs < 2^64 then
        .ok (s.targetMs + (s.halfElapsed + s.precisionMs) + (now - s.responseMonotonicMs) +
          maxClockSkewMs)
      else .error ⟨"clock-overflow"⟩ := by
    rw [hclock]
    exact AdmittedClock.incomingUpperMs_eq hn hage
  refine ⟨fun hfits => ?_,fun upper hu m trueMs hm hm' htrue => ?_⟩
  · rw [heq, if_pos hfits]
    rfl
  have helapsed : (s.elapsed : ℝ) = s.responseMonotonicMs - s.requestMonotonicMs :=
    Nat.cast_sub hordered
  have hhalves : (s.elapsed : ℝ) = s.halfElapsed + (s.elapsed/2 : ℕ) := by
    have : s.elapsed = s.halfElapsed + s.elapsed/2 := by
      unfold halfElapsed
      omega
    exact_mod_cast this
  have hupper : (upper : ℝ) = s.targetMs + (s.halfElapsed + s.precisionMs) +
      (now - s.responseMonotonicMs) + maxClockSkewMs := by
    rw [heq] at hu
    split_ifs at hu
    rw [← Except.ok.inj hu]
    push_cast [Nat.cast_sub hn]
    rfl
  obtain ⟨-,ht⟩ := abs_le.mp htrue
  refine ⟨by linarith,fun hlate => ?_⟩
  have hbound : trueMs + (now - m) + maxClockSkewMs ≤ upper := by linarith
  refine ⟨hbound,fun stamp hv hstamp => ?_⟩
  have hle : stamp.physicalMs ≤ upper := by exact_mod_cast le_trans hstamp hbound
  exact bind_eq_ok.mpr ⟨_,hv,bind_eq_ok.mpr ⟨_,hu,require_eq_ok.mpr hle⟩⟩

theorem incoming_bound_middle : (1000050 : ℝ) + (100 - 50) + maxClockSkewMs ≤ (1300100 : ℕ) := by
  have hok : middleSample.admitClock () = .ok (⟨"target",100,1000100⟩,()) := by decide +kernel
  have hupper : (⟨"target",100,1000100⟩ : AdmittedClock).incomingUpperMs middleSample.targetId 100 =
    .ok 1300100 := by decide
  have hn : middleSample.responseMonotonicMs ≤ 100 := by decide
  have h := (incoming_bound middleSample_typed hok hn (by decide)).2 _ hupper 50 1000050
    (by norm_num [middleSample]) (by norm_num [middleSample]) (by norm_num [middleSample])
  have hlate := (h.2 (by norm_num [middleSample, halfElapsed, elapsed])).1
  exact_mod_cast hlate

/-- A sample whose target answered as soon as the request was sent. -/
def earlySample : ClockSample :=
  ⟨"target",1000000,1000100,0,100,1000000,0,true,false⟩

/-- The target read exactly 1000000 at the request, so it stands at 1000100 when the response comes
and may admit a stamp at 1300100. The bound is lower and the stamp is refused. -/
theorem early_reading_refused :
    earlySample.admitClock () = .ok (⟨"target",100,1000050⟩,()) ∧
    (⟨"target",100,1000050⟩ : AdmittedClock).incomingUpperMs "target" 100 = .ok 1300050 ∧
    (1300050 : ℝ) < 1000000 + (100 - 0) + maxClockSkewMs ∧
    (⟨"target",100,1000050⟩ : AdmittedClock).admitIncoming "target" 100
      ⟨1300100,0,"00000000-0000-4000-8000-000000000002"⟩ = .error ⟨"incoming-clock-skew"⟩ := by
  refine ⟨by decide +kernel,by decide +kernel,?_,by decide +kernel⟩
  norm_num [maxClockSkewMs]

end ClockSample
end RisuNest.Wire

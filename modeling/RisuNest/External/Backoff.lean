import RisuNest.External.Contract
import Mathlib.Algebra.Order.Group.Nat
import Mathlib.Data.List.Induction
import Mathlib.Order.Lattice.Nat
import Mathlib.Order.WithBot

/-! How long the requests of an account wait after failures, retry-after answers and spacing
(`quota.rs`). Instants and durations are in nanoseconds; an instant that may be missing is ordered
as the derived order of an option does, a missing one first. -/
namespace RisuNest.External

/-- `AccountKey`; `pending` holds for the key of one authorization that is still under way. -/
structure AccountKey where
  provider : String
  authority : String
  principal : String
  pending : Bool
  deriving DecidableEq

def AccountKey.canResolveTo (key account : AccountKey) : Bool :=
  key.pending && !account.pending && key.provider = account.provider &&
    key.authority = account.authority

structure AccountWait where
  nextAllowed : WithBot ℕ
  errorPauseUntil : WithBot ℕ
  failures : ℕ
  lastError : Option ErrorKind

def AccountWait.default : AccountWait := ⟨⊥,⊥,0,none⟩

abbrev AccountBackoff := Table AccountKey AccountWait

/-- `u32::MAX` -/
def u32Max : ℕ := 4294967295

def nanosPerSecond : ℕ := 1000000000

def checkedShl (x n : ℕ) : Option ℕ := if n < 64 then some (x*2^n % 2^64) else none

def boundedFallbackSeconds (failures : ℕ) : ℕ :=
  min ((checkedShl 1 (min (failures-1) 9)).getD 300) 300

def nextDelaySeconds (failures : ℕ) (retryAfterSeconds : Option ℕ) : ℕ :=
  max (boundedFallbackSeconds failures) (retryAfterSeconds.getD 0)

/-- The errors that make an account wait. -/
def backsOff (kind : ErrorKind) : Bool :=
  kind = .transient || kind = .rateLimited || kind = .dailyQuotaExhausted

section
/- The first instant that the platform's `Instant` does not hold. -/
variable (instantEnd : ℕ)

def checkedAdd (now duration : ℕ) : Provided ℕ :=
  if now + duration < instantEnd then .ok (now + duration) else .error .corrupt

namespace AccountWait

/-- Whether an error pause is active. -/
def Paused (value : AccountWait) (now : ℕ) : Prop := (now : WithBot ℕ) < value.errorPauseUntil

instance (value : AccountWait) (now : ℕ) : Decidable (value.Paused now) :=
  inferInstanceAs (Decidable (_ < _))

def pausedUntil (value : AccountWait) (until' : WithBot ℕ) : AccountWait :=
  { value with errorPauseUntil := until', nextAllowed := max value.nextAllowed until' }

/-- A failure during a pause. -/
def failPaused (value : AccountWait) (retryAfter : Option ℕ) (now : ℕ) :
    Provided Unit × AccountWait :=
  match retryAfter with
  | none => (.ok (),value.pausedUntil value.errorPauseUntil)
  | some delay =>
    match checkedAdd instantEnd now delay with
    | .error e => (.error e,value)
    | .ok until' => (.ok (),value.pausedUntil (max value.errorPauseUntil until'))

/-- A failure that begins a pause. Its error leaves the failure counted. -/
def failAnew (value : AccountWait) (retryAfter : Option ℕ) (now : ℕ) :
    Provided Unit × AccountWait :=
  let value := { value with failures := min (value.failures+1) u32Max }
  match checkedAdd instantEnd now
      (max (nanosPerSecond*nextDelaySeconds value.failures none) (retryAfter.getD 0)) with
  | .error e => (.error e,value)
  | .ok until' => (.ok (),value.pausedUntil until')

def fail (value : AccountWait) (kind : ErrorKind) (retryAfter : Option ℕ) (now : ℕ) :
    Provided Unit × AccountWait :=
  let value := { value with lastError := some kind }
  if backsOff kind = false then (.ok (),value)
  else if value.Paused now then value.failPaused instantEnd retryAfter now
  else value.failAnew instantEnd retryAfter now

def succeed (value : AccountWait) (now : ℕ) : AccountWait :=
  if value.Paused now then value
  else { value with failures := 0, lastError := none, errorPauseUntil := ⊥ }

/-- What an account keeps of its own wait and of a pending one. -/
def merge (target source : AccountWait) : AccountWait :=
  let merged := if target.nextAllowed < source.nextAllowed
    then { target with nextAllowed := source.nextAllowed, lastError := source.lastError }
    else target
  { merged with
    errorPauseUntil := max merged.errorPauseUntil source.errorPauseUntil
    failures := max merged.failures source.failures }

end AccountWait

namespace AccountBackoff

/-- The entry of an account, or the one `or_default` makes. -/
def wait (b : AccountBackoff) (account : AccountKey) : AccountWait :=
  (b.get account).getD .default

def failure (b : AccountBackoff) (account : AccountKey) (kind : ErrorKind)
    (retryAfter : Option ℕ) (now : ℕ) : Provided Unit × AccountBackoff :=
  let r := (b.wait account).fail instantEnd kind retryAfter now
  (r.1,b.upsert account r.2)

def deferFor (b : AccountBackoff) (account : AccountKey) (duration now : ℕ) :
    Provided Unit × AccountBackoff :=
  match checkedAdd instantEnd now duration with
  | .error e => (.error e,b)
  | .ok until' =>
    let value := b.wait account
    (.ok (),b.upsert account { value with nextAllowed := max value.nextAllowed until' })

/-- `success_at` -/
def success (b : AccountBackoff) (account : AccountKey) (now : ℕ) : AccountBackoff :=
  match b.get account with
  | none => b
  | some value => b.upsert account (value.succeed now)

def resolvePending (b : AccountBackoff) (key account : AccountKey) :
    Provided Unit × AccountBackoff :=
  if key.canResolveTo account = false then (.error .corrupt,b)
  else
    match b.get key with
    | none => (.ok (),b)
    | some source =>
      let accounts := Table.erase b key
      (.ok (),accounts.upsert account ((wait accounts account).merge source))

end AccountBackoff

/-! ### Runs of calls -/

/-- A call on the waits of the accounts. -/
inductive WaitCall
  | failure (account : AccountKey) (kind : ErrorKind) (retryAfter : Option ℕ) (now : ℕ)
  | deferFor (account : AccountKey) (duration now : ℕ)
  | success (account : AccountKey) (now : ℕ)
  | resolvePending (key account : AccountKey)

namespace WaitCall

def apply (b : AccountBackoff) : WaitCall → Provided Unit × AccountBackoff
  | .failure account kind retryAfter now => b.failure instantEnd account kind retryAfter now
  | .deferFor account duration now => b.deferFor instantEnd account duration now
  | .success account now => (.ok (),b.success account now)
  | .resolvePending key account => b.resolvePending key account

def after (b : AccountBackoff) (call : WaitCall) : AccountBackoff := (call.apply instantEnd b).2

/-- The account a call charges, and the instants it asks the account to wait for: a failure for its
retry-after and, when it begins a pause, for the fallback delay of its place in the streak. -/
def requested (b : AccountBackoff) : WaitCall → List (AccountKey × ℕ)
  | .failure account kind retryAfter now =>
    if backsOff kind = false then []
    else (retryAfter.toList.map fun delay => (account,now + delay)) ++
      if (b.wait account).Paused now then []
      else [(account,now +
        nanosPerSecond*boundedFallbackSeconds (min ((b.wait account).failures+1) u32Max))]
  | .deferFor account duration now => [(account,now + duration)]
  | .success .. | .resolvePending .. => []

/-- Whether a call takes away the entry of a pending key. -/
def Resolves (key : AccountKey) : WaitCall → Prop
  | .resolvePending key' account => key' = key ∧ key.canResolveTo account = true
  | _ => False

/-- The number of pauses begun on an account since its last success outside a pause. A key that is
resolved hands over its streak where it is the longer one. -/
def countPauses (b : AccountBackoff) (begun : AccountKey → ℕ) : WaitCall → AccountKey → ℕ
  | .failure account kind retryAfter now =>
    if backsOff kind = true ∧ ¬ (b.wait account).Paused now ∧
        (b.failure instantEnd account kind retryAfter now).1 = .ok ()
      then Function.update begun account (begun account + 1) else begun
  | .deferFor .. => begun
  | .success account now =>
    if (b.wait account).Paused now then begun else Function.update begun account 0
  | .resolvePending key account =>
    if key.canResolveTo account = true
      then Function.update (Function.update begun account (max (begun account) (begun key))) key 0
      else begun

end WaitCall

/-- The waits and the pauses begun after some calls. -/
def waitRun (calls : List WaitCall) : AccountBackoff × (AccountKey → ℕ) :=
  calls.foldl (fun s call => (call.after instantEnd s.1,call.countPauses instantEnd s.1 s.2))
    (.empty,fun _ => 0)

variable {instantEnd}

/-! ### One entry -/

lemma checkedAdd_eq_ok {now duration t : ℕ} :
    checkedAdd instantEnd now duration = .ok t ↔ now + duration < instantEnd ∧ now + duration = t := by
  unfold checkedAdd
  split_ifs with h <;> simp [h]

lemma boundedFallbackSeconds_eq (failures : ℕ) :
    boundedFallbackSeconds failures = min (2^(min (failures-1) 9)) 300 := by
  unfold boundedFallbackSeconds checkedShl
  have hn : min (failures-1) 9 ≤ 9 := Nat.min_le_right _ _
  have hpow : 2^(min (failures-1) 9) ≤ 2^9 := Nat.pow_le_pow_right (by omega) hn
  rw [if_pos (by omega), Option.getD_some, Nat.one_mul, Nat.mod_eq_of_lt (by omega)]

lemma nextDelaySeconds_none (failures : ℕ) :
    nextDelaySeconds failures none = boundedFallbackSeconds failures := Nat.max_zero _

lemma min_two_pow_eq (n : ℕ) : min (2^n) 300 = min (2^(min n 9)) 300 := by
  by_cases hn : n ≤ 9
  · rw [Nat.min_eq_left hn]
  · have hpow : 2^9 ≤ 2^n := Nat.pow_le_pow_right (by omega) (by omega)
    rw [Nat.min_eq_right (by omega : 9 ≤ n)]
    omega

lemma le_boundedFallbackSeconds {f failures : ℕ} (h : min f u32Max ≤ failures) :
    min (2^(f-1)) 300 ≤ boundedFallbackSeconds failures := by
  rw [boundedFallbackSeconds_eq, min_two_pow_eq]
  have hle : min (f-1) 9 ≤ min (failures-1) 9 := by
    unfold u32Max at h
    omega
  have hpow : 2^(min (f-1) 9) ≤ 2^(min (failures-1) 9) := Nat.pow_le_pow_right (by omega) hle
  omega

namespace AccountWait
variable {value value' : AccountWait} {kind : ErrorKind} {retryAfter : Option ℕ} {now : ℕ}
  {r : Provided Unit}

lemma fail_eq (h : value.fail instantEnd kind retryAfter now = (r,value')) :
    value.nextAllowed ≤ value'.nextAllowed ∧
    (value.errorPauseUntil ≤ value.nextAllowed → value'.errorPauseUntil ≤ value'.nextAllowed) ∧
    (value.failures ≤ u32Max → value.failures ≤ value'.failures ∧ value'.failures ≤ u32Max) ∧
    (backsOff kind = true → r = .ok () →
      (∀ delay ∈ retryAfter, ((now + delay : ℕ) : WithBot ℕ) ≤ value'.nextAllowed) ∧
      (¬ value.Paused now → value'.failures = min (value.failures+1) u32Max ∧
        ((now + nanosPerSecond*boundedFallbackSeconds value'.failures : ℕ) : WithBot ℕ) ≤
          value'.nextAllowed)) := by
  unfold fail at h
  dsimp only at h
  split_ifs at h with hkind hpaused
  · cases h
    exact ⟨le_refl _,id,fun hf => ⟨Nat.le_refl _,hf⟩,fun hk => absurd hk (by simp [hkind])⟩
  · change value.Paused now at hpaused
    unfold failPaused at h
    cases retryAfter with
    | none =>
      cases h
      refine ⟨le_max_left _ _,fun _ => le_max_right _ _,fun hf => ⟨Nat.le_refl _,hf⟩,fun _ _ => ?_⟩
      exact ⟨by simp,fun hn => absurd hpaused hn⟩
    | some delay =>
      dsimp only at h
      cases ht : checkedAdd instantEnd now delay with
      | error e =>
        rw [ht] at h
        cases h
        exact ⟨le_refl _,id,fun hf => ⟨Nat.le_refl _,hf⟩,fun _ hr => by cases hr⟩
      | ok t =>
        rw [ht] at h
        cases h
        refine ⟨le_max_left _ _,fun _ => le_max_right _ _,fun hf => ⟨Nat.le_refl _,hf⟩,
          fun _ _ => ⟨?_,fun hn => absurd hpaused hn⟩⟩
        rintro _ ⟨⟩
        obtain ⟨-, rfl⟩ := checkedAdd_eq_ok.mp ht
        exact (le_max_right _ _).trans (le_max_right _ _)
  · unfold failAnew at h
    dsimp only at h
    have hcount : ∀ n, n ≤ u32Max → n ≤ min (n+1) u32Max ∧ min (n+1) u32Max ≤ u32Max :=
      fun n hn => ⟨Nat.le_min.mpr ⟨Nat.le_succ n,hn⟩,Nat.min_le_right _ _⟩
    cases ht : checkedAdd instantEnd now
        (max (nanosPerSecond*nextDelaySeconds (min (value.failures+1) u32Max) none)
          (retryAfter.getD 0)) with
    | error e =>
      rw [ht] at h
      cases h
      exact ⟨le_refl _,id,hcount _,fun _ hr => by cases hr⟩
    | ok t =>
      rw [ht] at h
      cases h
      obtain ⟨-, rfl⟩ := checkedAdd_eq_ok.mp ht
      refine ⟨le_max_left _ _,fun _ => le_max_right _ _,hcount _,fun _ _ => ⟨?_,fun _ => ⟨rfl,?_⟩⟩⟩
      · rintro delay ⟨⟩
        refine le_trans ?_ (le_max_right _ _)
        exact WithBot.coe_le_coe.mpr (Nat.add_le_add_left (Nat.le_max_right _ _) now)
      · refine le_trans ?_ (le_max_right _ _)
        rw [nextDelaySeconds_none]
        exact WithBot.coe_le_coe.mpr (Nat.add_le_add_left (Nat.le_max_left _ _) now)

theorem fail_spec (instantEnd : ℕ) (value : AccountWait) (kind : ErrorKind)
    (retryAfter : Option ℕ) (now : ℕ) :
    let value' := (value.fail instantEnd kind retryAfter now).2
    value.nextAllowed ≤ value'.nextAllowed ∧
    (value.errorPauseUntil ≤ value.nextAllowed → value'.errorPauseUntil ≤ value'.nextAllowed) ∧
    (value.failures ≤ u32Max → value.failures ≤ value'.failures ∧ value'.failures ≤ u32Max) ∧
    (backsOff kind = true → (value.fail instantEnd kind retryAfter now).1 = .ok () →
      (∀ delay ∈ retryAfter, ((now + delay : ℕ) : WithBot ℕ) ≤ value'.nextAllowed) ∧
      (¬ value.Paused now → value'.failures = min (value.failures+1) u32Max ∧
        ((now + nanosPerSecond*boundedFallbackSeconds value'.failures : ℕ) : WithBot ℕ) ≤
          value'.nextAllowed)) := fail_eq (Prod.eta _).symm

lemma merge_nextAllowed (target source : AccountWait) :
    (target.merge source).nextAllowed = max target.nextAllowed source.nextAllowed := by
  unfold merge
  split_ifs with h
  · exact (max_eq_right h.le).symm
  · exact (max_eq_left (not_lt.mp h)).symm

lemma merge_errorPauseUntil (target source : AccountWait) :
    (target.merge source).errorPauseUntil =
      max target.errorPauseUntil source.errorPauseUntil := by
  unfold merge
  split_ifs <;> rfl

lemma merge_failures (target source : AccountWait) :
    (target.merge source).failures = max target.failures source.failures := by
  unfold merge
  split_ifs <;> rfl

lemma merge_default (target : AccountWait) : target.merge .default = target := by
  simp [merge, default]

lemma succeed_default (now : ℕ) : AccountWait.default.succeed now = .default := by
  simp [succeed, default, Paused]

end AccountWait

/-! ### One call -/

namespace AccountBackoff
variable {b : AccountBackoff} {account key k : AccountKey} {now : ℕ}

lemma wait_upsert (value : AccountWait) :
    (AccountBackoff.wait (b.upsert account value) k) = if k = account then value else b.wait k := by
  unfold wait
  rw [Table.get_upsert]
  split_ifs <;> rfl

lemma wait_erase : AccountBackoff.wait (b.erase key) k = if k = key then .default else b.wait k := by
  unfold wait
  rw [Table.get_erase]
  split_ifs <;> rfl

lemma deferFor_eq (duration : ℕ) : b.deferFor instantEnd account duration now =
    if now + duration < instantEnd
      then (.ok (),b.upsert account { b.wait account with
        nextAllowed := max (b.wait account).nextAllowed ((now + duration : ℕ) : WithBot ℕ) })
      else (.error .corrupt,b) := by
  unfold deferFor checkedAdd
  split_ifs <;> rfl

lemma wait_success : (b.success account now).wait k =
    if k = account then (b.wait account).succeed now else b.wait k := by
  unfold success
  cases h : b.get account with
  | none =>
    have hd : b.wait account = .default := by simp [wait, h]
    split_ifs with hk
    · rw [hk, hd, AccountWait.succeed_default]
    · rfl
  | some value =>
    have hv : b.wait account = value := by simp [wait, h]
    rw [wait_upsert, hv]

lemma wait_resolvePending (hr : key.canResolveTo account = true) :
    (b.resolvePending key account).2.wait k =
      if k = account then (b.wait account).merge (b.wait key)
      else if k = key then .default else b.wait k := by
  have hne : account ≠ key := by
    rintro rfl
    simp [AccountKey.canResolveTo] at hr
  unfold resolvePending
  rw [if_neg (by simp [hr])]
  cases h : b.get key with
  | none =>
    have hd : b.wait key = .default := by simp [wait, h]
    rw [hd, AccountWait.merge_default]
    split_ifs with ha hk
    · rw [ha]
    · rw [hk, hd]
    · rfl
  | some source =>
    have hv : b.wait key = source := by simp [wait, h]
    change AccountBackoff.wait (Table.upsert (Table.erase b key) account _) k = _
    rw [wait_upsert, wait_erase, wait_erase, if_neg hne, hv]

end AccountBackoff

/-! ### Whole runs -/

/-- What holds of the entry of every account. -/
structure AccountBackoff.Sound (b : AccountBackoff) (begun : AccountKey → ℕ) : Prop where
  paused : ∀ k, (b.wait k).errorPauseUntil ≤ (b.wait k).nextAllowed
  counted : ∀ k, min (begun k) u32Max ≤ (b.wait k).failures
  bounded : ∀ k, (b.wait k).failures ≤ u32Max

namespace WaitCall
variable {b : AccountBackoff} {begun : AccountKey → ℕ} {call : WaitCall} {k : AccountKey}

lemma after_failure (account : AccountKey) (kind : ErrorKind) (retryAfter : Option ℕ) (now : ℕ) :
    ((WaitCall.failure account kind retryAfter now).after instantEnd b).wait k =
      if k = account then ((b.wait account).fail instantEnd kind retryAfter now).2 else b.wait k :=
  AccountBackoff.wait_upsert _

lemma after_deferFor (account : AccountKey) (duration now : ℕ) :
    ((WaitCall.deferFor account duration now).after instantEnd b).wait k =
      if now + duration < instantEnd ∧ k = account then { b.wait account with
        nextAllowed := max (b.wait account).nextAllowed ((now + duration : ℕ) : WithBot ℕ) }
      else b.wait k := by
  change (b.deferFor instantEnd account duration now).2.wait k = _
  rw [AccountBackoff.deferFor_eq]
  by_cases h : now + duration < instantEnd
  · simp only [h, if_true, true_and]
    exact AccountBackoff.wait_upsert _
  · simp only [h, if_false, false_and]

lemma after_resolvePending (key account : AccountKey) :
    ((WaitCall.resolvePending key account).after instantEnd b).wait k =
      if key.canResolveTo account = true then
        if k = account then (b.wait account).merge (b.wait key)
        else if k = key then .default else b.wait k
      else b.wait k := by
  by_cases hr : key.canResolveTo account = true
  · rw [if_pos hr]
    exact AccountBackoff.wait_resolvePending hr
  · have hf : key.canResolveTo account = false := by simpa using hr
    rw [if_neg hr]
    change (b.resolvePending key account).2.wait k = _
    rw [AccountBackoff.resolvePending, if_pos hf]

/-- A call never brings the next request of an account forward, unless it takes the entry of a
pending key away. -/
theorem nextAllowed_le_after (hk : ¬ call.Resolves k) :
    (b.wait k).nextAllowed ≤ ((call.after instantEnd b).wait k).nextAllowed := by
  cases call with
  | failure account kind retryAfter now =>
    rw [after_failure]
    split_ifs with he
    · rw [he]
      exact (AccountWait.fail_spec instantEnd (b.wait account) kind retryAfter now).1
    · exact le_refl _
  | deferFor account duration now =>
    rw [after_deferFor]
    split_ifs with he
    · rw [he.2]
      exact le_max_left _ _
    · exact le_refl _
  | success account now =>
    change _ ≤ ((b.success account now).wait k).nextAllowed
    rw [AccountBackoff.wait_success]
    split_ifs with he
    · rw [he, AccountWait.succeed]
      split_ifs <;> exact le_refl _
    · exact le_refl _
  | resolvePending key account =>
    rw [after_resolvePending]
    split_ifs with hr ha hkey
    · rw [ha, AccountWait.merge_nextAllowed]
      exact le_max_left _ _
    · subst hkey
      exact absurd ⟨rfl,hr⟩ hk
    · exact le_refl _
    · exact le_refl _

lemma requested_le_after (hok : (call.apply instantEnd b).1 = .ok ()) {account : AccountKey}
    {t : ℕ} (ht : (account,t) ∈ call.requested b) :
    (t : WithBot ℕ) ≤ ((call.after instantEnd b).wait account).nextAllowed := by
  cases call with
  | failure account' kind retryAfter now =>
    simp only [requested] at ht
    split_ifs at ht with hkind hpaused
    · cases ht
    all_goals
      have hkind' : backsOff kind = true := by simpa using hkind
      obtain ⟨-, -, -, hreq⟩ := AccountWait.fail_spec instantEnd (b.wait account') kind retryAfter now
      obtain ⟨hretry, hbegin⟩ := hreq hkind' hok
      rw [List.mem_append] at ht
    · obtain ht | ht := ht
      · obtain ⟨delay, hd, he⟩ := List.mem_map.mp ht
        cases he
        rw [after_failure, if_pos rfl]
        exact hretry delay (Option.mem_toList.mp hd)
      · cases ht
    · obtain ht | ht := ht
      · obtain ⟨delay, hd, he⟩ := List.mem_map.mp ht
        cases he
        rw [after_failure, if_pos rfl]
        exact hretry delay (Option.mem_toList.mp hd)
      · obtain ⟨hcount, hfallback⟩ := hbegin hpaused
        cases List.mem_singleton.mp ht
        rw [after_failure, if_pos rfl, ← hcount]
        exact hfallback
  | deferFor account' duration now =>
    cases List.mem_singleton.mp ht
    change (b.deferFor instantEnd account duration now).1 = .ok () at hok
    rw [AccountBackoff.deferFor_eq] at hok
    split_ifs at hok with h
    rw [after_deferFor, if_pos ⟨h,rfl⟩]
    exact le_max_right _ _
  | success account' now => cases ht
  | resolvePending key account' => cases ht

lemma le_after_resolvePending {key account : AccountKey} (hr : key.canResolveTo account = true) :
    (b.wait key).nextAllowed ≤
      (((WaitCall.resolvePending key account).after instantEnd b).wait account).nextAllowed := by
  rw [after_resolvePending, if_pos hr, if_pos rfl, AccountWait.merge_nextAllowed]
  exact le_max_right _ _

/-- Every call keeps the entries sound. -/
theorem sound_after (h : b.Sound begun) (call : WaitCall) :
    (call.after instantEnd b).Sound (call.countPauses instantEnd b begun) := by
  cases call with
  | failure account kind retryAfter now =>
    obtain ⟨-, hpause, hcount, hreq⟩ := AccountWait.fail_spec instantEnd (b.wait account) kind retryAfter now
    obtain ⟨hle, hbound⟩ := hcount (h.bounded account)
    refine ⟨?_,?_,?_⟩
    · intro k
      rw [after_failure]
      split_ifs with he
      · exact hpause (h.paused account)
      · exact h.paused k
    · intro k
      rw [after_failure, countPauses]
      by_cases he : k = account
      · subst he
        rw [if_pos rfl]
        split_ifs with hbegin
        · obtain ⟨hkind, hpaused, hok⟩ := hbegin
          rw [((hreq hkind hok).2 hpaused).1, Function.update_self]
          have := h.counted k
          omega
        · exact (h.counted k).trans hle
      · rw [if_neg he]
        split_ifs with hbegin
        · rw [Function.update_of_ne he]
          exact h.counted k
        · exact h.counted k
    · intro k
      rw [after_failure]
      split_ifs with he
      · exact hbound
      · exact h.bounded k
  | deferFor account duration now =>
    refine ⟨?_,?_,?_⟩
    · intro k
      rw [after_deferFor]
      split_ifs with he
      · exact (h.paused account).trans (le_max_left _ _)
      · exact h.paused k
    · intro k
      rw [after_deferFor]
      split_ifs with he
      · rw [he.2]
        exact h.counted account
      · exact h.counted k
    · intro k
      rw [after_deferFor]
      split_ifs with he
      · exact h.bounded account
      · exact h.bounded k
  | success account now =>
    have hget : ∀ k, ((WaitCall.success account now).after instantEnd b).wait k =
        if k = account then (b.wait account).succeed now else b.wait k :=
      fun k => AccountBackoff.wait_success
    by_cases hpaused : (b.wait account).Paused now
    · have hsame : ∀ k, ((WaitCall.success account now).after instantEnd b).wait k = b.wait k := by
        intro k
        rw [hget, AccountWait.succeed, if_pos hpaused]
        split_ifs with he
        · rw [he]
        · rfl
      rw [countPauses, if_pos hpaused]
      refine ⟨?_,?_,?_⟩
      · intro k
        rw [hsame]
        exact h.paused k
      · intro k
        rw [hsame]
        exact h.counted k
      · intro k
        rw [hsame]
        exact h.bounded k
    · rw [countPauses, if_neg hpaused]
      refine ⟨?_,?_,?_⟩
      · intro k
        rw [hget, AccountWait.succeed, if_neg hpaused]
        split_ifs with he
        · exact bot_le
        · exact h.paused k
      · intro k
        rw [hget, AccountWait.succeed, if_neg hpaused]
        split_ifs with he
        · rw [he, Function.update_self]
          exact Nat.zero_le _
        · rw [Function.update_of_ne he]
          exact h.counted k
      · intro k
        rw [hget, AccountWait.succeed, if_neg hpaused]
        split_ifs with he
        · exact Nat.zero_le _
        · exact h.bounded k
  | resolvePending key account =>
    refine ⟨?_,?_,?_⟩
    · intro k
      rw [after_resolvePending]
      split_ifs with hr ha hkey
      · rw [AccountWait.merge_errorPauseUntil, AccountWait.merge_nextAllowed]
        exact max_le_max (h.paused account) (h.paused key)
      · exact le_refl _
      · exact h.paused k
      · exact h.paused k
    · intro k
      rw [after_resolvePending, countPauses]
      by_cases hr : key.canResolveTo account = true
      · have hne : account ≠ key := by
          rintro rfl
          simp [AccountKey.canResolveTo] at hr
        rw [if_pos hr, if_pos hr]
        by_cases ha : k = account
        · subst ha
          rw [if_pos rfl, AccountWait.merge_failures, Function.update_of_ne hne,
            Function.update_self]
          have hown := h.counted k
          have hkey := h.counted key
          omega
        · rw [if_neg ha]
          by_cases hkey : k = key
          · rw [hkey, if_pos rfl, Function.update_self]
            exact Nat.zero_le _
          · rw [if_neg hkey, Function.update_of_ne hkey, Function.update_of_ne ha]
            exact h.counted k
      · rw [if_neg hr, if_neg hr]
        exact h.counted k
    · intro k
      rw [after_resolvePending]
      split_ifs with hr ha hkey
      · rw [AccountWait.merge_failures]
        exact max_le (h.bounded account) (h.bounded key)
      · exact Nat.zero_le _
      · exact h.bounded k
      · exact h.bounded k

end WaitCall

lemma waitRun_concat (calls : List WaitCall) (call : WaitCall) :
    waitRun instantEnd (calls ++ [call]) =
      (call.after instantEnd (waitRun instantEnd calls).1,
        call.countPauses instantEnd (waitRun instantEnd calls).1 (waitRun instantEnd calls).2) := by
  simp [waitRun]

theorem sound_waitRun (instantEnd : ℕ) (calls : List WaitCall) :
    (waitRun instantEnd calls).1.Sound (waitRun instantEnd calls).2 := by
  induction calls using List.reverseRecOn with
  | nil => exact ⟨fun _ => le_refl _,fun _ => Nat.zero_le _,fun _ => Nat.zero_le _⟩
  | append_singleton calls call ih =>
    rw [waitRun_concat]
    exact WaitCall.sound_after ih call

lemma nextAllowed_le_foldl {calls : List WaitCall} {k : AccountKey}
    (hk : ∀ call ∈ calls, ¬ call.Resolves k) (b : AccountBackoff) :
    (b.wait k).nextAllowed ≤
      ((calls.foldl (fun s call => call.after instantEnd s) b).wait k).nextAllowed := by
  induction calls generalizing b with
  | nil => exact le_refl _
  | cons call calls ih =>
    obtain ⟨hcall, hcalls⟩ := List.forall_mem_cons.mp hk
    exact (WaitCall.nextAllowed_le_after hcall).trans (ih hcalls _)

lemma not_resolves_account {account : AccountKey} (ha : account.pending = false) (call : WaitCall) :
    ¬ call.Resolves account := by
  cases call with
  | resolvePending key other =>
    rintro ⟨-, hr⟩
    simp [AccountKey.canResolveTo, ha] at hr
  | failure | deferFor | success => exact id

/-- A key's charges belong to an account: they are its own, or the key is resolved to it next. -/
def ChargedTo (key account : AccountKey) (later : List WaitCall) : Prop :=
  key = account ∨ ∃ between rest, later = between ++ .resolvePending key account :: rest ∧
    key.canResolveTo account = true ∧ ∀ call ∈ between, ¬ call.Resolves key

/-- In every run of calls, by any clock readings: a call never brings the next request of an account
forward (nor of a pending key, unless it resolves it); the instants a successful call asks for are
waited for by the account it charges, or by the account its pending key is resolved to, ever after;
an error pause never ends after the wait; and a counted failure outside a pause waits at least as
long as the number of pauses begun since the last success asks for. -/
theorem waits_are_never_shortened (instantEnd : ℕ) (before : List WaitCall) (call : WaitCall) :
    let b := (waitRun instantEnd before).1
    let r := call.apply instantEnd b
    (∀ k : AccountKey, k.pending = false ∨ ¬ call.Resolves k →
      (b.wait k).nextAllowed ≤ (r.2.wait k).nextAllowed) ∧
    (∀ key t account later, r.1 = .ok () → (key,t) ∈ call.requested b → account.pending = false →
      ChargedTo key account later → (t : WithBot ℕ) ≤
        ((waitRun instantEnd (before ++ call :: later)).1.wait account).nextAllowed) ∧
    (∀ k, (r.2.wait k).errorPauseUntil ≤ (r.2.wait k).nextAllowed) ∧
    ∀ account kind retryAfter now, call = .failure account kind retryAfter now →
      backsOff kind = true → ¬ (b.wait account).Paused now → r.1 = .ok () →
      ((now + nanosPerSecond *
        min (2^((waitRun instantEnd (before ++ [call])).2 account - 1)) 300 : ℕ) : WithBot ℕ) ≤
          (r.2.wait account).nextAllowed := by
  intro b r
  have hsound := sound_waitRun instantEnd (before ++ [call])
  rw [waitRun_concat] at hsound
  refine ⟨?_,?_,hsound.paused,?_⟩
  · intro k hk
    exact WaitCall.nextAllowed_le_after (hk.elim (fun ha => not_resolves_account ha call) id)
  · intro key t account later hok ht ha hcharged
    have hown := WaitCall.requested_le_after hok ht
    have hrun : ∀ calls, (waitRun instantEnd (before ++ call :: calls)).1 =
        calls.foldl (fun s c => c.after instantEnd s) (call.after instantEnd b) := by
      intro calls
      induction calls using List.reverseRecOn with
      | nil => rw [waitRun_concat]; rfl
      | append_singleton calls c ih =>
        rw [← List.cons_append, ← List.append_assoc, waitRun_concat, ih, List.foldl_append]
        rfl
    rw [hrun]
    obtain rfl | ⟨between, rest, rfl, hr, hbetween⟩ := hcharged
    · exact hown.trans (nextAllowed_le_foldl (fun c _ => not_resolves_account ha c) _)
    · rw [List.foldl_append, List.foldl_cons]
      exact ((hown.trans (nextAllowed_le_foldl hbetween _)).trans
        (WaitCall.le_after_resolvePending hr)).trans
          (nextAllowed_le_foldl (fun c _ => not_resolves_account ha c) _)
  · intro account kind retryAfter now hcall hkind hpaused hok
    subst hcall
    obtain ⟨-, -, -, hreq⟩ := AccountWait.fail_spec instantEnd (b.wait account) kind retryAfter now
    obtain ⟨-, hbegin⟩ := hreq hkind hok
    obtain ⟨-, hfallback⟩ := hbegin hpaused
    have hcounted := hsound.counted account
    rw [WaitCall.after_failure, if_pos rfl] at hcounted
    rw [waitRun_concat]
    change _ ≤ ((WaitCall.after instantEnd b _).wait account).nextAllowed
    rw [WaitCall.after_failure, if_pos rfl]
    refine le_trans (WithBot.coe_le_coe.mpr ?_) hfallback
    exact Nat.add_le_add_left (Nat.mul_le_mul_left _ (le_boundedFallbackSeconds hcounted)) now

end
end RisuNest.External

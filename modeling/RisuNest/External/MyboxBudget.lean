import RisuNest.External.Backoff

/-! Requests of a MYBOX account, reserved before they are sent (`durable_quota.rs`): six counters
over a rolling minute and one over a day, whatever the clock does. -/
namespace RisuNest.External

inductive MyboxPlan
  | plan30gb | plan80gb | plan180gb | plan2tb | plan5tb | plan10tb | plan20tb
  deriving DecidableEq

/-- Downloads a day, lists a minute, and any other request a minute. -/
def MyboxPlan.limits : MyboxPlan → ℕ × ℕ × ℕ
  | .plan30gb => (500,10,60)
  | .plan80gb => (1000,10,60)
  | .plan180gb => (1000,30,240)
  | .plan2tb => (2000,30,240)
  | .plan5tb => (5000,30,240)
  | .plan10tb => (20000,30,240)
  | .plan20tb => (50000,30,240)

inductive MyboxCounter
  | downloadDay | metadataMinute | listMinute | folderMinute | uploadUrlMinute | downloadUrlMinute
  | deleteMinute
  deriving DecidableEq

def MyboxCounter.limit (counter : MyboxCounter) (plan : MyboxPlan) : ℕ :=
  match counter with
  | .downloadDay => plan.limits.1
  | .listMinute => plan.limits.2.1
  | _ => plan.limits.2.2

structure MyboxCharge where
  plan : MyboxPlan
  counters : List MyboxCounter

def maxU64 : ℕ := 18446744073709551615
def i64Max : ℕ := 9223372036854775807

def saturatingAdd (a b : ℕ) : ℕ := min (a + b) maxU64

def dayMs : ℕ := 86400000
def kstOffsetMs : ℕ := 32400000
def rollingMinuteMs : ℕ := 60000

def nextDailyResetMs (now : ℕ) : ℕ :=
  let local' := saturatingAdd now kstOffsetMs
  saturatingAdd (local' - local' % dayMs) dayMs - kstOffsetMs

/-- What the budget answers with: an error, and when to try again if a counter denied it. -/
structure BudgetError where
  kind : ErrorKind
  retryAtMs : WithBot ℕ

abbrev Budgeted := Except BudgetError

/-- A row of `mybox_accounts`. -/
structure MyboxAccount where
  lastSeenMs : ℕ
  downloadResetAtMs : ℕ
  downloadsUsed : ℕ

/-- A row of `mybox_minute_requests`. -/
structure MinuteRequest where
  scope : String × String
  counter : MyboxCounter
  issuedAtMs : ℕ

/-- The database, its rows by authority and principal. -/
structure MyboxDb where
  accounts : Table (String × String) MyboxAccount
  requests : List MinuteRequest

def AccountKey.scope (account : AccountKey) : String × String := (account.authority,account.principal)

def requireMybox (account : AccountKey) (now : ℕ) : Budgeted Unit := do
  require (account.provider = "mybox" ∧ account.pending = false) ⟨.unsupported,⊥⟩
  require (now ≤ i64Max - dayMs) ⟨.corrupt,⊥⟩

structure AccountCounters where
  now : ℕ
  downloadResetAtMs : ℕ
  downloadsUsed : ℕ

namespace MyboxDb

def empty : MyboxDb := ⟨.empty,[]⟩

/-- Whether a clock reading lies more than a minute behind the last one that counted. -/
def rebases (db : MyboxDb) (scope : String × String) (now : ℕ) : Bool :=
  (db.accounts.get scope).any fun row => decide (saturatingAdd now rollingMinuteMs < row.lastSeenMs)

/-- The rows of an account moved back to a clock reading. -/
def rebase (db : MyboxDb) (scope : String × String) (now : ℕ) : MyboxDb where
  accounts := db.accounts.mapValues fun key row =>
    if key = scope
      then { row with
        lastSeenMs := now
        downloadResetAtMs := min row.downloadResetAtMs (nextDailyResetMs now) }
      else row
  requests := db.requests.map fun r =>
    if r.scope = scope ∧ now < r.issuedAtMs then { r with issuedAtMs := now } else r

/-- What a transaction starts with. -/
def opened (db : MyboxDb) (scope : String × String) (now : ℕ) : MyboxDb :=
  if db.rebases scope now then db.rebase scope now else db

def accountCounters (db : MyboxDb) (account : AccountKey) (now : ℕ) : Budgeted AccountCounters := do
  let previous := (db.accounts.get account.scope).getD ⟨now,nextDailyResetMs now,0⟩
  let rebased := decide (saturatingAdd now rollingMinuteMs < previous.lastSeenMs)
  let effectiveNow := if rebased then now else max now previous.lastSeenMs
  let reset := if rebased then min previous.downloadResetAtMs (nextDailyResetMs now)
    else previous.downloadResetAtMs
  requireMybox account effectiveNow
  require (reset ≠ 0 ∧ reset ≤ i64Max) ⟨.corrupt,⊥⟩
  pure ⟨effectiveNow,if reset ≤ effectiveNow then nextDailyResetMs effectiveNow else reset,
    if reset ≤ effectiveNow then 0 else previous.downloadsUsed⟩

/-- Whether a row counts against a minute counter. -/
def counts (scope : String × String) (counter : MyboxCounter) (now : ℕ) (r : MinuteRequest) : Bool :=
  decide (r.scope = scope) && decide (r.counter = counter) &&
    decide (now < r.issuedAtMs + rollingMinuteMs)

def minuteUsage (db : MyboxDb) (scope : String × String) (counter : MyboxCounter) (now : ℕ) :
    ℕ × Option ℕ :=
  let rows := db.requests.filter (counts scope counter now)
  (rows.length,(rows.map MinuteRequest.issuedAtMs).min?)

/-- How much of a counter is used. -/
def used (db : MyboxDb) (scope : String × String) (state : AccountCounters)
    (counter : MyboxCounter) : ℕ :=
  if counter = .downloadDay then state.downloadsUsed
  else (db.minuteUsage scope counter state.now).1

/-- The error of a counter that has nothing left. -/
def exhausted (db : MyboxDb) (scope : String × String) (state : AccountCounters)
    (counter : MyboxCounter) : BudgetError :=
  if counter = .downloadDay then ⟨.dailyQuotaExhausted,state.downloadResetAtMs⟩
  else ⟨.rateLimited,saturatingAdd
    ((db.minuteUsage scope counter state.now).2.getD state.now) rollingMinuteMs⟩

/-- The denial so far after one more counter: the one with the latest time to try again. -/
def deny (db : MyboxDb) (scope : String × String) (plan : MyboxPlan) (state : AccountCounters)
    (denied : Option BudgetError) (counter : MyboxCounter) : Option BudgetError :=
  if counter.limit plan ≤ db.used scope state counter then
    if denied.all fun previous =>
        decide (previous.retryAtMs < (db.exhausted scope state counter).retryAtMs)
      then some (db.exhausted scope state counter) else denied
  else denied

/-- The rows once a charge is granted. -/
def consume (db : MyboxDb) (scope : String × String) (counters : List MyboxCounter)
    (state : AccountCounters) : Budgeted MyboxDb := do
  let downloads := if .downloadDay ∈ counters then state.downloadsUsed + 1 else state.downloadsUsed
  require (downloads ≤ maxU64) ⟨.corrupt,⊥⟩
  require (state.now ≤ i64Max ∧ state.downloadResetAtMs ≤ i64Max ∧ downloads ≤ i64Max) ⟨.corrupt,⊥⟩
  pure {
    accounts := db.accounts.upsert scope ⟨state.now,state.downloadResetAtMs,downloads⟩
    requests := db.requests.filter (fun r =>
        !(decide (r.scope = scope) && decide (r.issuedAtMs + rollingMinuteMs ≤ state.now))) ++
      (counters.filter (· ≠ .downloadDay)).map fun counter => ⟨scope,counter,state.now⟩ }

/-- `reserve`: an error rolls the transaction back, unless a denial keeps what it rebased. -/
def reserve (db : MyboxDb) (account : AccountKey) (charge : MyboxCharge) (now : ℕ) :
    Budgeted Unit × MyboxDb :=
  match (do
    requireMybox account now
    require (charge.counters ≠ [] ∧ charge.counters.length ≤ 2 ∧ charge.counters.Nodup)
      ⟨.corrupt,⊥⟩ : Budgeted Unit) with
  | .error e => (.error e,db)
  | .ok _ =>
    match (db.opened account.scope now).accountCounters account now with
    | .error e => (.error e,db)
    | .ok state =>
      match charge.counters.foldl
          ((db.opened account.scope now).deny account.scope charge.plan state) none with
      | some e => (.error e,if db.rebases account.scope now then db.opened account.scope now else db)
      | none =>
        match (db.opened account.scope now).consume account.scope charge.counters state with
        | .error e => (.error e,db)
        | .ok after => (.ok (),after)

end MyboxDb

/-- A call of `reserve`, and whether the store carries its transaction out. -/
structure ReserveCall where
  account : AccountKey
  charge : MyboxCharge
  now : ℕ
  stored : Bool

namespace ReserveCall

def run (db : MyboxDb) (call : ReserveCall) : Budgeted Unit × MyboxDb :=
  if call.stored then db.reserve call.account call.charge call.now
  else (.error ⟨.transient,⊥⟩,db)

def after (db : MyboxDb) (call : ReserveCall) : MyboxDb := (call.run db).2

/-- Whether a call of an account is granted a request of a counter. -/
def grants (account : AccountKey) (counter : MyboxCounter) (db : MyboxDb) (call : ReserveCall) :
    Bool :=
  decide (call.account = account) && decide (counter ∈ call.charge.counters) &&
    (call.run db).1.isOk

/-- Whether a call of an account begins a new day: it is granted at or after the stored reset. -/
def resets (account : AccountKey) (db : MyboxDb) (call : ReserveCall) : Bool :=
  decide (call.account = account) && (call.run db).1.isOk &&
    ((db.opened account.scope call.now).accounts.get account.scope).any fun row =>
      decide (row.downloadResetAtMs ≤ max call.now row.lastSeenMs)

end ReserveCall

/-- The requests of a counter that some calls were granted. -/
def granted (account : AccountKey) (counter : MyboxCounter) : MyboxDb → List ReserveCall → ℕ
  | _, [] => 0
  | db, call :: calls =>
    (if call.grants account counter db then 1 else 0) +
      granted account counter (call.after db) calls

/-- Whether no call of a list begins a new day. -/
def sameDay (account : AccountKey) : MyboxDb → List ReserveCall → Prop
  | _, [] => True
  | db, call :: calls => call.resets account db = false ∧ sameDay account (call.after db) calls

/-- How far a clock moved forward over its readings. -/
def forward : List ℕ → ℕ
  | a :: b :: rest => (b - a) + forward (b :: rest)
  | _ => 0

/-- The clock readings of an account's calls. -/
def readings (account : AccountKey) (calls : List ReserveCall) : List ℕ :=
  (calls.filter fun call => call.account = account).map ReserveCall.now

/-! ### One transaction -/

namespace MyboxDb
variable {db after : MyboxDb} {scope scope' : String × String} {account : AccountKey}
  {charge : MyboxCharge} {counter : MyboxCounter} {now : ℕ} {state : AccountCounters}
  {counters : List MyboxCounter}

/-- The clock reading the rows of an account were last written with. -/
def lastSeen (db : MyboxDb) (scope : String × String) : ℕ :=
  ((db.accounts.get scope).map MyboxAccount.lastSeenMs).getD 0

/-- The downloads that are stored for an account. -/
def downloads (db : MyboxDb) (scope : String × String) : ℕ :=
  ((db.accounts.get scope).map MyboxAccount.downloadsUsed).getD 0

lemma requireMybox_eq_ok : requireMybox account now = .ok () ↔
    (account.provider = "mybox" ∧ account.pending = false) ∧ now ≤ i64Max - dayMs := by
  unfold requireMybox
  rw [bind_eq_ok]
  simp only [require_eq_ok]
  constructor
  · rintro ⟨_, h, h'⟩
    exact ⟨require_eq_ok.mp h,h'⟩
  · rintro ⟨h, h'⟩
    exact ⟨(),require_eq_ok.mpr h,h'⟩

lemma saturatingAdd_minute (h : now ≤ i64Max - dayMs) :
    saturatingAdd now rollingMinuteMs = now + rollingMinuteMs := by
  unfold saturatingAdd
  unfold i64Max dayMs at h
  unfold maxU64 rollingMinuteMs
  omega

lemma lastSeen_of_rebases (h : db.rebases scope now = true) (hnow : now ≤ i64Max - dayMs) :
    now + rollingMinuteMs < db.lastSeen scope := by
  unfold rebases at h
  rw [saturatingAdd_minute hnow] at h
  unfold lastSeen
  cases hrow : db.accounts.get scope with
  | none => simp [hrow] at h
  | some row => simpa [hrow] using h

lemma lastSeen_of_not_rebases (h : db.rebases scope now = false) (hnow : now ≤ i64Max - dayMs) :
    db.lastSeen scope ≤ now + rollingMinuteMs := by
  unfold rebases at h
  rw [saturatingAdd_minute hnow] at h
  unfold lastSeen
  cases hrow : db.accounts.get scope with
  | none => simp
  | some row => simpa [hrow] using h

lemma get_opened (db : MyboxDb) (scope key : String × String) (now : ℕ) :
    (db.opened scope now).accounts.get key =
      if key = scope ∧ db.rebases scope now = true then (db.accounts.get key).map fun row =>
        { row with
          lastSeenMs := now
          downloadResetAtMs := min row.downloadResetAtMs (nextDailyResetMs now) }
      else db.accounts.get key := by
  unfold opened
  by_cases hr : db.rebases scope now = true
  · rw [if_pos hr]
    unfold rebase
    simp only [Table.get_mapValues, hr, and_true]
    split_ifs <;> simp
  · rw [if_neg hr, if_neg fun h => hr h.2]

lemma lastSeen_opened_other (h : scope' ≠ scope) :
    (db.opened scope now).lastSeen scope' = db.lastSeen scope' := by
  unfold lastSeen
  rw [get_opened, if_neg fun hn => h hn.1]

lemma downloads_opened (db : MyboxDb) (scope key : String × String) (now : ℕ) :
    (db.opened scope now).downloads key = db.downloads key := by
  unfold downloads
  rw [get_opened]
  split_ifs
  · simp only [Option.map_map]
    rfl
  · rfl

lemma lastSeen_opened (db : MyboxDb) (scope : String × String) (now : ℕ) :
    (db.opened scope now).lastSeen scope =
      if db.rebases scope now = true then now else db.lastSeen scope := by
  unfold lastSeen
  rw [get_opened]
  by_cases hr : db.rebases scope now = true
  · rw [if_pos ⟨rfl,hr⟩, if_pos hr]
    cases hrow : db.accounts.get scope with
    | none => simp [rebases, hrow] at hr
    | some row => rfl
  · rw [if_neg fun h => hr h.2, if_neg hr]

lemma lastSeen_opened_le (hnow : now ≤ i64Max - dayMs) :
    (db.opened scope now).lastSeen scope ≤ now + rollingMinuteMs := by
  rw [lastSeen_opened]
  split_ifs with hr
  · omega
  · exact lastSeen_of_not_rebases (by simpa using hr) hnow

lemma accountCounters_eq_ok (hnow : now ≤ i64Max - dayMs)
    (h : (db.opened account.scope now).accountCounters account now = .ok state) :
    state.now = max now ((db.opened account.scope now).lastSeen account.scope) ∧
    state.downloadsUsed =
      (if ((db.opened account.scope now).accounts.get account.scope).any fun row =>
          decide (row.downloadResetAtMs ≤ max now row.lastSeenMs)
        then 0 else db.downloads account.scope) := by
  have hle : (db.opened account.scope now).lastSeen account.scope ≤ now + rollingMinuteMs :=
    lastSeen_opened_le hnow
  rw [← downloads_opened db account.scope account.scope now]
  unfold lastSeen downloads at *
  unfold accountCounters at h
  cases hrow : (db.opened account.scope now).accounts.get account.scope with
  | none =>
    have hno : ¬ (saturatingAdd now rollingMinuteMs < now) := by
      rw [saturatingAdd_minute hnow]
      omega
    simp only [hrow, Option.getD_none, hno, decide_false, Bool.false_eq_true, if_false] at h
    obtain ⟨_, -, h⟩ := bind_eq_ok.mp h
    obtain ⟨_, -, h⟩ := bind_eq_ok.mp h
    cases h
    simp
  | some row =>
    simp only [hrow, Option.map_some, Option.getD_some] at hle
    have hno : ¬ (saturatingAdd now rollingMinuteMs < row.lastSeenMs) := by
      rw [saturatingAdd_minute hnow]
      omega
    simp only [hrow, Option.getD_some, hno, decide_false, Bool.false_eq_true, if_false] at h
    obtain ⟨_, -, h⟩ := bind_eq_ok.mp h
    obtain ⟨_, -, h⟩ := bind_eq_ok.mp h
    cases h
    simp

lemma consume_eq_ok (h : db.consume scope counters state = .ok after) :
    after.requests = db.requests.filter (fun r =>
        !(decide (r.scope = scope) && decide (r.issuedAtMs + rollingMinuteMs ≤ state.now))) ++
      (counters.filter (· ≠ .downloadDay)).map (fun counter => ⟨scope,counter,state.now⟩) ∧
    after.lastSeen scope = state.now ∧
    (∀ key, key ≠ scope → after.accounts.get key = db.accounts.get key) ∧
    after.downloads scope =
      if .downloadDay ∈ counters then state.downloadsUsed + 1 else state.downloadsUsed := by
  unfold consume at h
  obtain ⟨_, -, h⟩ := bind_eq_ok.mp h
  obtain ⟨_, -, h⟩ := bind_eq_ok.mp h
  cases h
  refine ⟨rfl,?_,?_,?_⟩
  · simp [lastSeen]
  · intro key hkey
    simp [hkey]
  · simp [downloads]

lemma used_lt_limit {plan : MyboxPlan} {denied : Option BudgetError}
    (h : counters.foldl (db.deny scope plan state) denied = none) :
    denied = none ∧ ∀ counter ∈ counters, db.used scope state counter < counter.limit plan := by
  induction counters generalizing denied with
  | nil => exact ⟨h,by simp⟩
  | cons counter counters ih =>
    obtain ⟨hdeny, hrest⟩ := ih h
    unfold deny at hdeny
    by_cases hlim : counter.limit plan ≤ db.used scope state counter
    · rw [if_pos hlim] at hdeny
      split_ifs at hdeny with hall
      subst hdeny
      exact absurd rfl hall
    · rw [if_neg hlim] at hdeny
      exact ⟨hdeny,List.forall_mem_cons.mpr ⟨not_le.mp hlim,hrest⟩⟩

/-- A call fails and leaves the rows, or fails and moves them back to its clock reading, or is
granted what its counters have left. -/
theorem reserve_cases (db : MyboxDb) (account : AccountKey) (charge : MyboxCharge) (now : ℕ) :
    (∃ e, db.reserve account charge now = (.error e,db)) ∨
    (requireMybox account now = .ok () ∧
      ∃ e, db.reserve account charge now = (.error e,db.opened account.scope now)) ∨
    (requireMybox account now = .ok () ∧ ∃ state after,
      (db.opened account.scope now).accountCounters account now = .ok state ∧
      (∀ counter ∈ charge.counters,
        (db.opened account.scope now).used account.scope state counter <
          counter.limit charge.plan) ∧
      (db.opened account.scope now).consume account.scope charge.counters state = .ok after ∧
      db.reserve account charge now = (.ok (),after)) := by
  unfold reserve
  split
  · exact .inl ⟨_,rfl⟩
  · rename_i u hok
    obtain ⟨_, haccount, -⟩ := bind_eq_ok.mp hok
    cases hcount : (db.opened account.scope now).accountCounters account now with
    | error e => exact .inl ⟨e,rfl⟩
    | ok state =>
      dsimp only
      cases hdeny : charge.counters.foldl
          ((db.opened account.scope now).deny account.scope charge.plan state) none with
      | some e =>
        refine .inr (.inl ⟨haccount,e,?_⟩)
        dsimp only
        congr 1
        by_cases hr : db.rebases account.scope now = true
        · exact if_pos hr
        · rw [if_neg hr, opened, if_neg hr]
      | none =>
        dsimp only
        cases hconsume : (db.opened account.scope now).consume account.scope charge.counters state with
        | error e => exact .inl ⟨e,rfl⟩
        | ok after =>
          exact .inr (.inr ⟨haccount,state,after,rfl,(used_lt_limit hdeny).2,hconsume,rfl⟩)

/-! ### Rows that are young -/

/-- Where the clock has been: the last reading of an account's calls, or the last that counted. -/
def reach (db : MyboxDb) (scope : String × String) (last : ℕ) : ℕ := max (db.lastSeen scope) last

/-- A request of a counter that was issued no more than some clock movement ago. -/
def young (scope : String × String) (counter : MyboxCounter) (reach moved : ℕ) (r : MinuteRequest) :
    Bool :=
  decide (r.scope = scope) && decide (r.counter = counter) && decide (reach ≤ r.issuedAtMs + moved)

/-- The stored requests of a counter that are young. -/
def youngRows (db : MyboxDb) (scope : String × String) (counter : MyboxCounter) (last moved : ℕ) :
    ℕ :=
  db.requests.countP (young scope counter (db.reach scope last) moved)

lemma youngRows_opened (hnow : now ≤ i64Max - dayMs) (last moved : ℕ) :
    db.youngRows scope counter last moved ≤
      (db.opened scope now).youngRows scope counter now (moved + (now - last)) := by
  unfold youngRows reach
  rw [lastSeen_opened]
  by_cases hr : db.rebases scope now = true
  · have hlast := lastSeen_of_rebases hr hnow
    rw [if_pos hr, opened, if_pos hr, rebase, List.countP_map]
    apply List.countP_mono_left
    intro r _ hy
    simp only [young, Function.comp_apply, Bool.and_eq_true, decide_eq_true_eq] at hy ⊢
    obtain ⟨⟨hscope, hcounter⟩, hage⟩ := hy
    split_ifs with hmove
    · exact ⟨⟨hscope,hcounter⟩,by dsimp only; omega⟩
    · exact ⟨⟨hscope,hcounter⟩,by omega⟩
  · rw [if_neg hr, opened, if_neg hr]
    apply List.countP_mono_left
    intro r _ hy
    simp only [young, Bool.and_eq_true, decide_eq_true_eq] at hy ⊢
    exact ⟨hy.1,by omega⟩

lemma youngRows_opened_other (h : scope ≠ scope') (last moved : ℕ) :
    (db.opened scope' now).youngRows scope counter last moved =
      db.youngRows scope counter last moved := by
  unfold youngRows reach
  rw [lastSeen_opened_other h]
  unfold opened
  split_ifs
  · rw [rebase, List.countP_map]
    congr 1
    funext r
    simp only [young, Function.comp_apply]
    split_ifs with hmove
    · have hne : r.scope ≠ scope := fun he => h (he.symm.trans hmove.1)
      simp [hne]
    · rfl
  · rfl

lemma youngRows_consume (hstate : state.now = max now (db.lastSeen scope))
    (h : db.consume scope counters state = .ok after) (hday : counter ≠ .downloadDay) {moved : ℕ}
    (hmoved : moved < rollingMinuteMs) :
    db.youngRows scope counter now moved + (if counter ∈ counters then 1 else 0) ≤
      after.youngRows scope counter now moved := by
  obtain ⟨hrequests, hlast, -, -⟩ := consume_eq_ok h
  have hreach : after.reach scope now = db.reach scope now := by
    unfold reach
    omega
  have hnow : db.reach scope now = state.now := by
    unfold reach
    omega
  unfold youngRows
  rw [hreach, hrequests, List.countP_append, hnow]
  apply Nat.add_le_add
  · rw [List.countP_filter]
    apply List.countP_mono_left
    intro r _ hy
    simp only [young, Bool.and_eq_true, decide_eq_true_eq, Bool.not_eq_true', Bool.and_eq_false_iff,
      decide_eq_false_iff_not] at hy ⊢
    exact ⟨hy,.inr (by omega)⟩
  · split_ifs with hin
    · rw [Nat.one_le_iff_ne_zero, Ne, List.countP_eq_zero]
      intro hno
      apply hno ⟨scope,counter,state.now⟩
      · exact List.mem_map.mpr ⟨counter,List.mem_filter.mpr ⟨hin,by simp [hday]⟩,rfl⟩
      · simp [young]
    · exact Nat.zero_le _

lemma youngRows_le_used (hstate : state.now = max now (db.lastSeen scope))
    (hday : counter ≠ .downloadDay) {moved : ℕ} (hmoved : moved < rollingMinuteMs) :
    db.youngRows scope counter now moved ≤ db.used scope state counter := by
  have hnow : db.reach scope now = state.now := by
    unfold reach
    omega
  unfold youngRows used minuteUsage
  rw [if_neg hday, hnow]
  dsimp only
  rw [← List.countP_eq_length_filter]
  apply List.countP_mono_left
  intro r _ hy
  simp only [young, counts, Bool.and_eq_true, decide_eq_true_eq] at hy ⊢
  exact ⟨hy.1,by omega⟩

lemma youngRows_consume_other (h : db.consume scope' counters state = .ok after)
    (hne : scope ≠ scope') (last moved : ℕ) :
    after.youngRows scope counter last moved = db.youngRows scope counter last moved := by
  obtain ⟨hrequests, -, hget, -⟩ := consume_eq_ok h
  have hreach : after.reach scope last = db.reach scope last := by
    unfold reach lastSeen
    rw [hget scope hne]
  unfold youngRows
  rw [hreach, hrequests, List.countP_append, List.countP_filter, List.countP_map]
  have hnew : List.countP (young scope counter (db.reach scope last) moved ∘
      fun counter => (⟨scope',counter,state.now⟩ : MinuteRequest))
      (counters.filter (· ≠ .downloadDay)) = 0 := by
    rw [List.countP_eq_zero]
    intro c _
    simp [young, Ne.symm hne]
  rw [hnew, Nat.add_zero]
  congr 1
  funext r
  by_cases hr : r.scope = scope
  · have hr' : r.scope ≠ scope' := fun he => hne (hr.symm.trans he)
    simp [hr', Bool.and_true]
  · simp [young, hr]

lemma requests_opened (db : MyboxDb) (key : String × String) (counter : MyboxCounter) :
    (db.opened scope now).requests.countP
        (fun r => decide (r.scope = key) && decide (r.counter = counter)) =
      db.requests.countP fun r => decide (r.scope = key) && decide (r.counter = counter) := by
  unfold opened
  split_ifs
  · rw [rebase, List.countP_map]
    congr 1
    funext r
    simp only [Function.comp_apply]
    split_ifs <;> rfl
  · rfl

end MyboxDb

/-! ### Runs of calls -/

section
variable {db : MyboxDb} {account : AccountKey} {counter : MyboxCounter} {plan : MyboxPlan}
  {call : ReserveCall}

lemma scope_ne {other : AccountKey} {now now' : ℕ} (ha : requireMybox account now = .ok ())
    (hb : requireMybox other now' = .ok ()) (hne : other ≠ account) : account.scope ≠ other.scope := by
  obtain ⟨⟨hprovider, hpending⟩, -⟩ := MyboxDb.requireMybox_eq_ok.mp ha
  obtain ⟨⟨hprovider', hpending'⟩, -⟩ := MyboxDb.requireMybox_eq_ok.mp hb
  intro hs
  apply hne
  obtain ⟨provider, authority, principal, pending⟩ := account
  obtain ⟨provider', authority', principal', pending'⟩ := other
  simp only [AccountKey.scope, Prod.mk.injEq] at hs
  obtain ⟨rfl, rfl⟩ := hs
  simp only at hprovider hpending hprovider' hpending'
  simp [hprovider, hpending, hprovider', hpending']

/-- What a call does to the rows. -/
theorem ReserveCall.run_cases (db : MyboxDb) (call : ReserveCall) :
    (∃ e, call.run db = (.error e,db)) ∨
    (requireMybox call.account call.now = .ok () ∧
      ∃ e, call.run db = (.error e,db.opened call.account.scope call.now)) ∨
    (requireMybox call.account call.now = .ok () ∧ ∃ state after,
      (db.opened call.account.scope call.now).accountCounters call.account call.now = .ok state ∧
      (∀ counter ∈ call.charge.counters,
        (db.opened call.account.scope call.now).used call.account.scope state counter <
          counter.limit call.charge.plan) ∧
      (db.opened call.account.scope call.now).consume call.account.scope call.charge.counters state =
        .ok after ∧ call.run db = (.ok (),after)) := by
  unfold run
  by_cases hs : call.stored = true
  · rw [if_pos hs]
    exact db.reserve_cases call.account call.charge call.now
  · rw [if_neg hs]
    exact .inl ⟨_,rfl⟩

/-- A call of an account by the movement of its clock: what is granted is young afterwards, and
nothing that was young is lost. -/
lemma ReserveCall.own_step (hown : call.account = account) (hplan : call.charge.plan = plan)
    (hday : counter ≠ .downloadDay) {last moved given : ℕ}
    (hmoved : moved + (call.now - last) < rollingMinuteMs)
    (hgiven : given ≤ db.youngRows account.scope counter last moved)
    (hlimit : given ≤ counter.limit plan) :
    given + (if call.grants account counter db then 1 else 0) ≤
        (call.after db).youngRows account.scope counter call.now (moved + (call.now - last)) ∧
      given + (if call.grants account counter db then 1 else 0) ≤ counter.limit plan := by
  subst hown hplan
  unfold grants after
  rcases call.run_cases db with ⟨e, h⟩ | ⟨hok, e, h⟩ | ⟨hok, state, after, hcount, hused, hconsume, h⟩
  · rw [h]
    simp only [Except.isOk, Except.toBool, Bool.and_false, Bool.false_eq_true, if_false,
      Nat.add_zero]
    refine ⟨hgiven.trans ?_,hlimit⟩
    unfold MyboxDb.youngRows MyboxDb.reach
    apply List.countP_mono_left
    intro r _ hy
    simp only [MyboxDb.young, Bool.and_eq_true, decide_eq_true_eq] at hy ⊢
    exact ⟨hy.1,by omega⟩
  · obtain ⟨-, hnow⟩ := MyboxDb.requireMybox_eq_ok.mp hok
    rw [h]
    simp only [Except.isOk, Except.toBool, Bool.and_false, Bool.false_eq_true, if_false,
      Nat.add_zero]
    exact ⟨hgiven.trans (MyboxDb.youngRows_opened hnow last moved),hlimit⟩
  · obtain ⟨-, hnow⟩ := MyboxDb.requireMybox_eq_ok.mp hok
    obtain ⟨hstate, -⟩ := MyboxDb.accountCounters_eq_ok hnow hcount
    have hyoung := hgiven.trans (MyboxDb.youngRows_opened hnow last moved)
    have hkept := MyboxDb.youngRows_consume hstate hconsume hday hmoved
    rw [h]
    simp only [Except.isOk, Except.toBool, Bool.and_true, decide_true, Bool.true_and,
      decide_eq_true_eq]
    refine ⟨by omega,?_⟩
    split_ifs with hin
    · have hle := MyboxDb.youngRows_le_used hstate hday hmoved
      have hlt := hused counter hin
      omega
    · exact hlimit

lemma ReserveCall.other_step (db : MyboxDb) (hother : call.account ≠ account) {now : ℕ}
    (ha : requireMybox account now = .ok ()) (last moved : ℕ) :
    call.grants account counter db = false ∧
    (call.after db).youngRows account.scope counter last moved =
      db.youngRows account.scope counter last moved ∧
    (call.after db).downloads account.scope = db.downloads account.scope := by
  refine ⟨by simp [grants, hother],?_⟩
  unfold after
  rcases call.run_cases db with ⟨e, h⟩ | ⟨hok, e, h⟩ | ⟨hok, state, after, -, -, hconsume, h⟩
  · rw [h]
    exact ⟨rfl,rfl⟩
  · rw [h]
    exact ⟨MyboxDb.youngRows_opened_other (scope_ne ha hok hother) last moved,
      db.downloads_opened _ _ _⟩
  · have hne := scope_ne ha hok hother
    obtain ⟨-, -, hget, -⟩ := MyboxDb.consume_eq_ok hconsume
    rw [h]
    refine ⟨?_,?_⟩
    · rw [MyboxDb.youngRows_consume_other hconsume hne,
        MyboxDb.youngRows_opened_other hne last moved]
    · rw [← db.downloads_opened call.account.scope account.scope call.now]
      unfold MyboxDb.downloads
      rw [hget account.scope hne]

lemma granted_eq_zero (hno : ¬ (account.provider = "mybox" ∧ account.pending = false))
    (calls : List ReserveCall) : granted account counter db calls = 0 := by
  induction calls generalizing db with
  | nil => rfl
  | cons call calls ih =>
    have hcall : call.grants account counter db = false := by
      by_cases hown : call.account = account
      · rcases call.run_cases db with ⟨e, h⟩ | ⟨hok, -⟩ | ⟨hok, -⟩
        · simp [ReserveCall.grants, h, Except.isOk, Except.toBool]
        · exact absurd (hown ▸ (MyboxDb.requireMybox_eq_ok.mp hok).1) hno
        · exact absurd (hown ▸ (MyboxDb.requireMybox_eq_ok.mp hok).1) hno
      · simp [ReserveCall.grants, hown]
    simp [granted, hcall, ih]

lemma readings_cons (call : ReserveCall) (calls : List ReserveCall) :
    readings account (call :: calls) =
      if call.account = account then call.now :: readings account calls
      else readings account calls := by
  unfold readings
  by_cases h : call.account = account <;> simp [h]

/-- The requests of a minute counter over less than a minute of clock movement. -/
theorem granted_minute (db : MyboxDb) (ha : requireMybox account 0 = .ok ()) (hday : counter ≠ .downloadDay)
    {calls : List ReserveCall}
    (hplan : ∀ call ∈ calls, call.account = account → call.charge.plan = plan)
    {last moved given : ℕ} (hmoved : moved + forward (last :: readings account calls) < rollingMinuteMs)
    (hgiven : given ≤ db.youngRows account.scope counter last moved)
    (hlimit : given ≤ counter.limit plan) :
    given + granted account counter db calls ≤ counter.limit plan := by
  induction calls generalizing db last moved given with
  | nil => exact hlimit
  | cons call calls ih =>
    obtain ⟨hcall, hcalls⟩ := List.forall_mem_cons.mp hplan
    rw [readings_cons] at hmoved
    rw [granted]
    by_cases hown : call.account = account
    · rw [if_pos hown, forward] at hmoved
      obtain ⟨hyoung, hle⟩ :=
        call.own_step hown (hcall hown) hday (by omega) hgiven hlimit
      rw [← Nat.add_assoc]
      exact ih _ hcalls (by omega) hyoung hle
    · rw [if_neg hown] at hmoved
      obtain ⟨hgrants, hyoung, -⟩ := call.other_step db hown ha last moved
      rw [hgrants, if_neg (by simp), Nat.zero_add]
      exact ih _ hcalls hmoved (hyoung ▸ hgiven) hlimit

lemma ReserveCall.own_downloads (db : MyboxDb) (hown : call.account = account) (hplan : call.charge.plan = plan) :
    ∃ base, (call.resets account db = false → base = db.downloads account.scope) ∧
      (call.after db).downloads account.scope =
        base + (if call.grants account .downloadDay db then 1 else 0) ∧
      (call.grants account .downloadDay db = true → base < MyboxCounter.downloadDay.limit plan) := by
  subst hown hplan
  unfold resets grants after
  rcases call.run_cases db with ⟨e, h⟩ | ⟨-, e, h⟩ | ⟨hok, state, after, hcount, hused, hconsume, h⟩
  · rw [h]
    exact ⟨_,fun _ => rfl,by simp [Except.isOk, Except.toBool],by simp [Except.isOk, Except.toBool]⟩
  · rw [h]
    refine ⟨_,fun _ => rfl,?_,by simp [Except.isOk, Except.toBool]⟩
    simp [Except.isOk, Except.toBool, MyboxDb.downloads_opened]
  · obtain ⟨-, hnow⟩ := MyboxDb.requireMybox_eq_ok.mp hok
    obtain ⟨-, hdownloads⟩ := MyboxDb.accountCounters_eq_ok hnow hcount
    obtain ⟨-, -, -, hafter⟩ := MyboxDb.consume_eq_ok hconsume
    rw [h]
    simp only [Except.isOk, Except.toBool, Bool.and_true, decide_true, Bool.true_and,
      decide_eq_true_eq]
    refine ⟨state.downloadsUsed,?_,?_,?_⟩
    · intro hresets
      rw [hdownloads, hresets]
      rfl
    · rw [hafter]
      split_ifs <;> rfl
    · intro hin
      have hlt := hused _ hin
      rwa [MyboxDb.used, if_pos rfl] at hlt

/-- The downloads of one day. -/
theorem granted_day (ha : requireMybox account 0 = .ok ()) {calls : List ReserveCall}
    (hplan : ∀ call ∈ calls, call.account = account → call.charge.plan = plan)
    (hday : sameDay account db calls) {given : ℕ} (hgiven : given ≤ db.downloads account.scope)
    (hlimit : given ≤ MyboxCounter.downloadDay.limit plan) :
    given + granted account .downloadDay db calls ≤ MyboxCounter.downloadDay.limit plan := by
  induction calls generalizing db given with
  | nil => exact hlimit
  | cons call calls ih =>
    obtain ⟨hcall, hcalls⟩ := List.forall_mem_cons.mp hplan
    obtain ⟨hfirst, hrest⟩ := hday
    rw [granted]
    by_cases hown : call.account = account
    · obtain ⟨base, hbase, hafter, hlt⟩ := call.own_downloads db hown (hcall hown)
      obtain rfl := hbase hfirst
      rw [← Nat.add_assoc]
      apply ih hcalls hrest
      · omega
      · split_ifs with hgrants
        · have := hlt hgrants
          omega
        · exact hlimit
    · obtain ⟨hgrants, -, hdownloads⟩ := call.other_step db hown ha 0 0
      rw [hgrants, if_neg (by simp), Nat.zero_add]
      exact ih hcalls hrest (hdownloads ▸ hgiven) hlimit

lemma ReserveCall.denied_consumes_nothing (hdenied : (call.run db).1 ≠ .ok ())
    (scope : String × String) (counter : MyboxCounter) :
    (call.after db).requests.countP
        (fun r => decide (r.scope = scope) && decide (r.counter = counter)) =
      db.requests.countP (fun r => decide (r.scope = scope) && decide (r.counter = counter)) ∧
    (call.after db).downloads scope = db.downloads scope := by
  unfold after
  rcases call.run_cases db with ⟨e, h⟩ | ⟨-, e, h⟩ | ⟨-, state, after, -, -, -, h⟩
  · rw [h]
    exact ⟨rfl,rfl⟩
  · rw [h]
    exact ⟨db.requests_opened scope counter,db.downloads_opened _ _ _⟩
  · exact absurd (congrArg Prod.fst h) hdenied

/-- Whatever rows the store holds, and however the clock moves: of any run of calls, those of an
account with one plan are granted each minute counter at most its limit while the account's clock
moves forward by less than a minute, and the downloads at most theirs from one reset of the day
counter to the next; and a call that is denied consumes nothing. -/
theorem requests_are_never_refunded (db : MyboxDb) (account : AccountKey) (plan : MyboxPlan)
    (calls : List ReserveCall)
    (hplan : ∀ call ∈ calls, call.account = account → call.charge.plan = plan) :
    (∀ counter, counter ≠ .downloadDay → forward (readings account calls) < rollingMinuteMs →
      granted account counter db calls ≤ counter.limit plan) ∧
    (∀ first rest, calls = first :: rest → sameDay account (first.after db) rest →
      granted account .downloadDay db calls ≤ MyboxCounter.downloadDay.limit plan) ∧
    ∀ call : ReserveCall, (call.run db).1 ≠ .ok () → ∀ scope counter,
      (call.after db).requests.countP
          (fun r => decide (r.scope = scope) && decide (r.counter = counter)) =
        db.requests.countP (fun r => decide (r.scope = scope) && decide (r.counter = counter)) ∧
      (call.after db).downloads scope = db.downloads scope := by
  refine ⟨?_,?_,fun call hdenied scope counter => call.denied_consumes_nothing hdenied scope counter⟩
  · intro counter hday hmoved
    by_cases hmybox : account.provider = "mybox" ∧ account.pending = false
    · have ha : requireMybox account 0 = .ok () :=
        MyboxDb.requireMybox_eq_ok.mpr ⟨hmybox,Nat.zero_le _⟩
      have hstart : 0 + forward ((readings account calls).headD 0 :: readings account calls) <
          rollingMinuteMs := by
        cases hr : readings account calls with
        | nil => simp [forward, rollingMinuteMs]
        | cons n rest =>
          rw [hr] at hmoved
          simpa [forward] using hmoved
      have hle := granted_minute db ha hday hplan hstart (Nat.zero_le _) (Nat.zero_le _)
      omega
    · rw [granted_eq_zero hmybox]
      exact Nat.zero_le _
  · rintro first rest rfl hday
    by_cases hmybox : account.provider = "mybox" ∧ account.pending = false
    · have ha : requireMybox account 0 = .ok () :=
        MyboxDb.requireMybox_eq_ok.mpr ⟨hmybox,Nat.zero_le _⟩
      obtain ⟨hfirst, hrest⟩ := List.forall_mem_cons.mp hplan
      rw [granted]
      apply granted_day ha hrest hday
      · by_cases hown : first.account = account
        · obtain ⟨base, -, hafter, -⟩ := first.own_downloads db hown (hfirst hown)
          omega
        · rw [(first.other_step db hown ha 0 0).1]
          exact Nat.zero_le _
      · by_cases hown : first.account = account
        · obtain ⟨base, -, -, hlt⟩ := first.own_downloads db hown (hfirst hown)
          split_ifs with hgrants
          · have := hlt hgrants
            omega
          · exact Nat.zero_le _
        · rw [(first.other_step db hown ha 0 0).1]
          exact Nat.zero_le _
    · rw [granted_eq_zero hmybox]
      exact Nat.zero_le _

end

/-- A list request of an account on the smallest plan. -/
def listRequest (now : ℕ) : ReserveCall :=
  ⟨⟨"mybox","https://synthetic.invalid","synthetic-account",false⟩,⟨.plan30gb,[.listMinute]⟩,now,true⟩

/-- Twelve list requests within a minute of clock movement, the clock going back once. -/
theorem requests_are_never_refunded_list :
    granted ⟨"mybox","https://synthetic.invalid","synthetic-account",false⟩ .listMinute .empty
      [listRequest 10,listRequest 11,listRequest 12,listRequest 13,listRequest 14,listRequest 15,
        listRequest 16,listRequest 17,listRequest 18,listRequest 19,listRequest 1,
        listRequest 59000] ≤ 10 :=
  (requests_are_never_refunded .empty _ .plan30gb _ (by simp [listRequest])).1 .listMinute (by decide)
    (by decide)

end RisuNest.External

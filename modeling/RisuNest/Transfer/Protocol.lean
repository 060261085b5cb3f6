import RisuNest.Transfer.Steps
import Mathlib.Logic.Function.Basic
import Mathlib.Logic.Relation

/-! The life of one upload, as the requests, the worker, maintenance and restarts see it: its
state, its job and recipe, and the calls that finish it. -/
namespace RisuNest.Transfer

/-- Where a call is that finishes an upload. A settling call has the outcome of its job: nothing,
or an error that is final or not. -/
inductive Stage
  | starting (caller : Caller)
  | holding (caller : Caller)
  | settling (outcome : Option Bool)
  deriving DecidableEq

def Stage.working : Stage → Bool
  | .starting caller | .holding caller => decide (caller = .worker)
  | .settling _ => true

/-- One upload. `job` says whether its job is terminal, `small` whether a request finishes it. -/
@[ext] structure Life where
  phase : Option UploadState
  job : Option Bool
  recipe : Bool
  small : Bool
  stage : ℕ → Option Stage

namespace Life

/-- `finish_upload` returns to its caller. -/
def returned (l : Life) (n : ℕ) (caller : Caller) (outcome : Option Bool) : ℕ → Option Stage :=
  Function.update l.stage n
    (match caller with
    | .request => none
    | .worker => some (.settling outcome))

lemma returned_request (l : Life) (n : ℕ) (outcome : Option Bool) (m : ℕ) :
    l.returned n .request outcome m = if m = n then none else l.stage m :=
  Function.update_apply l.stage n _ m

lemma returned_worker (l : Life) (n : ℕ) (outcome : Option Bool) (m : ℕ) :
    l.returned n .worker outcome m = if m = n then some (.settling outcome) else l.stage m :=
  Function.update_apply l.stage n _ m

/-- What a call leaves that records a final error, or one to try again. -/
def settled (l : Life) (final : Bool) : Life :=
  { l with
    phase := l.phase.map fun _ => if final then .failed else .queued
    job := l.job.map fun _ => final }

/-- What becomes of one upload in one step. No request starts to finish an upload with a job. -/
inductive Step (l : Life) : Life → Prop
  | begun (small : Bool) (hp : l.phase = none) (hj : l.job = none) (hr : l.recipe = false)
      (hs : ∀ n, l.stage n = none) :
      Step l { l with
        phase := some .opened
        small := small }
  | attached (hp : l.phase = some .opened) (hj : l.job = none) :
      Step l { l with
        phase := some .queued
        job := some false
        recipe := true }
  | submitted (hp : l.phase = some .opened ∨ l.phase = some .queued ∨ l.phase = some .finalizing)
      (hr : l.recipe = false) (hs : l.small = false) :
      Step l { l with
        phase := if l.phase = some .opened then some .queued else l.phase
        job := some (l.job.getD false) }
  | requested (n : ℕ) (hn : l.stage n = none) (hs : l.small = true) :
      Step l { l with stage := Function.update l.stage n (some (.starting .request)) }
  | taken (n : ℕ) (hj : l.job = some false) (hw : ∀ m g, l.stage m = some g → g.working = false) :
      Step l { l with stage := Function.update l.stage n (some (.starting .worker)) }
  | completed (n : ℕ) (caller : Caller) (hn : l.stage n = some (.starting caller))
      (hp : l.phase = some .complete) : Step l { l with stage := l.returned n caller none }
  | started (n : ℕ) (caller : Caller) (hn : l.stage n = some (.starting caller))
      (hp : l.phase = some .opened ∨ l.phase = some .queued)
      (hj : caller = .request → l.job = none) :
      Step l { l with
        phase := some .finalizing
        stage := Function.update l.stage n (some (.holding caller)) }
  | refused (n : ℕ) (caller : Caller) (hn : l.stage n = some (.starting caller)) :
      Step l { l with stage := l.returned n caller (some true) }
  | published (n : ℕ) (caller : Caller) (hn : l.stage n = some (.holding caller)) :
      Step l { l with
        phase := some .complete
        stage := l.returned n caller none }
  | rolledBack (n : ℕ) (caller : Caller) (final : Bool) (hn : l.stage n = some (.holding caller)) :
      Step l { l with
        phase := if l.phase = some .finalizing then some .opened else l.phase
        stage := l.returned n caller (some final) }
  | finished (n : ℕ) (hn : l.stage n = some (.settling none)) :
      Step l { l with
        job := none
        stage := Function.update l.stage n none }
  | recorded (n : ℕ) (final : Bool) (hn : l.stage n = some (.settling (some final))) :
      Step l { l.settled final with stage := Function.update l.stage n none }
  | dropped (small : Bool) (hp : l.phase ≠ some .finalizing) :
      Step l { l with
        phase := none
        job := none
        recipe := false
        small := small }
  | cleared (hp : l.phase = some .complete) : Step l { l with recipe := false }
  | stopped :
      Step l { l with
        phase := if l.phase = some .finalizing then
          some (if l.job.isSome then .queued else .opened) else l.phase
        stage := fun _ => none }

/-- What holds of an upload at all times. -/
structure Sound (l : Life) : Prop where
  job : l.job ≠ none → l.phase ≠ none
  terminal : l.job = some true ↔ l.phase = some .failed
  queued : l.phase = some .queued → l.job = some false
  recipe : l.recipe = true → l.phase = some .complete ∨ l.job ≠ none
  due : l.job ≠ none → l.recipe = true ∨ l.small = false ∨ l.phase = some .complete ∨
    l.phase = some .failed
  held : l.phase = some .finalizing → ∃ n caller, l.stage n = some (.holding caller)
  holding : ∀ n caller, l.stage n = some (.holding caller) → l.phase = some .finalizing
  holder : ∀ n m caller caller', l.stage n = some (.holding caller) →
    l.stage m = some (.holding caller') → n = m
  requested : ∀ n, l.stage n = some (.starting .request) ∨ l.stage n = some (.holding .request) →
    l.phase ≠ none → l.small = true
  unqueued : ∀ n, l.stage n = some (.holding .request) → l.job = none
  worker : ∀ n m g g', l.stage n = some g → l.stage m = some g' → g.working = true →
    g'.working = true → n = m
  working : ∀ n g, l.stage n = some g → g.working = true → l.phase ≠ none → l.job = some false
  succeeded : ∀ n, l.stage n = some (.settling none) → l.phase = some .complete ∨ l.phase = none
  erred : ∀ n final, l.stage n = some (.settling (some final)) → l.phase = some .opened ∨
    l.phase = some .queued ∨ l.phase = none ∨ final = true ∧ l.phase = some .complete

lemma exists_holding_update {f : ℕ → Option Stage} {n : ℕ} (g : Option Stage)
    (hn : ∀ caller, f n ≠ some (.holding caller)) (h : ∃ m caller, f m = some (.holding caller)) :
    ∃ m caller, Function.update f n g m = some (.holding caller) := by
  obtain ⟨m, caller, hm⟩ := h
  refine ⟨m,caller,?_⟩
  rw [Function.update_of_ne]
  · exact hm
  · intro hmn
    exact hn caller (hmn ▸ hm)

variable {l : Life}

lemma Sound.submitted (h : l.Sound) (hp : l.phase = some .opened ∨ l.phase = some .queued ∨
    l.phase = some .finalizing) (hr : l.recipe = false) (hs : l.small = false) :
    Sound { l with
      phase := if l.phase = some .opened then some .queued else l.phase
      job := some (l.job.getD false) } := by
  obtain ⟨job, terminal, queued, recipe, due, held, holding, holder, requested, unqueued, worker,
    working, succeeded, erred⟩ := h
  have hjob : l.job.getD false = false := by
    cases hj : l.job with
    | none => rfl
    | some final =>
      cases final with
      | false => rfl
      | true => grind
  rw [hjob]
  constructor <;> grind

lemma Sound.request (h : l.Sound) {n : ℕ} (hn : l.stage n = none) (hs : l.small = true) :
    Sound { l with stage := Function.update l.stage n (some (.starting .request)) } := by
  obtain ⟨job, terminal, queued, recipe, due, held, holding, holder, requested, unqueued, worker,
    working, succeeded, erred⟩ := h
  constructor
  case held => exact fun hp => exists_holding_update _ (by simp [hn]) (held hp)
  all_goals grind [Function.update_apply, Stage.working]

lemma Sound.taken (h : l.Sound) {n : ℕ} (hj : l.job = some false)
    (hw : ∀ m g, l.stage m = some g → g.working = false) :
    Sound { l with stage := Function.update l.stage n (some (.starting .worker)) } := by
  obtain ⟨job, terminal, queued, recipe, due, held, holding, holder, requested, unqueued, worker,
    working, succeeded, erred⟩ := h
  constructor
  case held =>
    refine fun hp => exists_holding_update _ (fun caller hn => ?_) (held hp)
    -- a request finishes no upload with a job, and the worker is idle
    cases caller <;> grind [Stage.working]
  all_goals grind [Function.update_apply, Stage.working]

lemma Sound.completed (h : l.Sound) {n : ℕ} {caller : Caller} (hn : l.stage n = some (.starting caller))
    (hp : l.phase = some .complete) :
    Sound { l with stage := l.returned n caller none } := by
  obtain ⟨job, terminal, queued, recipe, due, held, holding, holder, requested, unqueued, worker,
    working, succeeded, erred⟩ := h
  constructor
  case held => grind
  all_goals cases caller <;> grind [Stage.working, returned_request, returned_worker]

lemma Sound.started (h : l.Sound) {n : ℕ} {caller : Caller} (hn : l.stage n = some (.starting caller))
    (hp : l.phase = some .opened ∨ l.phase = some .queued) (hj : caller = .request → l.job = none) :
    Sound { l with
      phase := some .finalizing
      stage := Function.update l.stage n (some (.holding caller)) } := by
  obtain ⟨job, terminal, queued, recipe, due, held, holding, holder, requested, unqueued, worker,
    working, succeeded, erred⟩ := h
  constructor
  case held => exact fun _ => ⟨n,caller,Function.update_self _ _ _⟩
  all_goals cases caller <;> grind [Function.update_apply, Stage.working]

lemma Sound.refused (h : l.Sound) {n : ℕ} {caller : Caller} (hn : l.stage n = some (.starting caller))
    (hp : caller = .worker → l.phase ≠ some .finalizing) :
    Sound { l with stage := l.returned n caller (some true) } := by
  obtain ⟨job, terminal, queued, recipe, due, held, holding, holder, requested, unqueued, worker,
    working, succeeded, erred⟩ := h
  have hstate : l.phase = none ∨ ∃ p, l.phase = some p := Option.eq_none_or_eq_some _
  constructor
  case held => exact fun hp => exists_holding_update _ (by simp [hn]) (held hp)
  case erred =>
    intro m final hm
    cases caller with
    | request => grind [returned_request]
    | worker =>
      change l.returned n .worker (some true) m = _ at hm
      rw [returned_worker] at hm
      split_ifs at hm with hmn
      · have := working n _ hn rfl
        rcases hstate with hstate | ⟨p, hstate⟩
        · exact .inr (.inr (.inl hstate))
        · cases p <;> grind
      · exact erred m final hm
  all_goals cases caller <;> grind [Stage.working, returned_request, returned_worker]

lemma Sound.published (h : l.Sound) {n : ℕ} {caller : Caller} (hn : l.stage n = some (.holding caller)) :
    Sound { l with
      phase := some .complete
      stage := l.returned n caller none } := by
  obtain ⟨job, terminal, queued, recipe, due, held, holding, holder, requested, unqueued, worker,
    working, succeeded, erred⟩ := h
  constructor
  case held => grind
  all_goals cases caller <;> grind [Stage.working, returned_request, returned_worker]

lemma Sound.rolledBack (h : l.Sound) {n : ℕ} {caller : Caller} (final : Bool)
    (hn : l.stage n = some (.holding caller)) :
    Sound { l with
      phase := if l.phase = some .finalizing then some .opened else l.phase
      stage := l.returned n caller (some final) } := by
  obtain ⟨job, terminal, queued, recipe, due, held, holding, holder, requested, unqueued, worker,
    working, succeeded, erred⟩ := h
  have hp := holding n caller hn
  rw [if_pos hp]
  constructor
  case held => grind
  all_goals cases caller <;> grind [Stage.working, returned_request, returned_worker]

lemma Sound.finished (h : l.Sound) {n : ℕ} (hn : l.stage n = some (.settling none)) :
    Sound { l with
      job := none
      stage := Function.update l.stage n none } := by
  obtain ⟨job, terminal, queued, recipe, due, held, holding, holder, requested, unqueued, worker,
    working, succeeded, erred⟩ := h
  constructor
  case held => exact fun hp => exists_holding_update _ (by simp [hn]) (held hp)
  all_goals grind [Function.update_apply, Stage.working]

lemma Sound.recorded (h : l.Sound) {n : ℕ} {final : Bool} (hn : l.stage n = some (.settling (some final))) :
    Sound { l.settled final with stage := Function.update l.stage n none } := by
  obtain ⟨job, terminal, queued, recipe, due, held, holding, holder, requested, unqueued, worker,
    working, succeeded, erred⟩ := h
  constructor
  case held =>
    intro hp
    cases final <;> grind [settled]
  all_goals cases final <;> grind [Function.update_apply, Stage.working, settled]

lemma Sound.begun (h : l.Sound) (small : Bool) (hp : l.phase = none) (hr : l.recipe = false)
    (hs : ∀ n, l.stage n = none) :
    Sound { l with
      phase := some .opened
      small := small } := by
  obtain ⟨job, terminal, queued, recipe, due, held, holding, holder, requested, unqueued, worker,
    working, succeeded, erred⟩ := h
  constructor <;> grind

lemma Sound.attached (h : l.Sound) (hp : l.phase = some .opened) :
    Sound { l with
      phase := some .queued
      job := some false
      recipe := true } := by
  obtain ⟨job, terminal, queued, recipe, due, held, holding, holder, requested, unqueued, worker,
    working, succeeded, erred⟩ := h
  constructor <;> grind

lemma Sound.dropped (h : l.Sound) (small : Bool) (hp : l.phase ≠ some .finalizing) :
    Sound { l with
      phase := none
      job := none
      recipe := false
      small := small } := by
  obtain ⟨job, terminal, queued, recipe, due, held, holding, holder, requested, unqueued, worker,
    working, succeeded, erred⟩ := h
  constructor <;> grind

lemma Sound.cleared (h : l.Sound) (hp : l.phase = some .complete) :
    Sound { l with recipe := false } := by
  obtain ⟨job, terminal, queued, recipe, due, held, holding, holder, requested, unqueued, worker,
    working, succeeded, erred⟩ := h
  constructor <;> grind

lemma Sound.stopped (h : l.Sound) :
    Sound { l with
      phase := if l.phase = some .finalizing then
        some (if l.job.isSome then .queued else .opened) else l.phase
      stage := fun _ => none } := by
  obtain ⟨job, terminal, queued, recipe, due, held, holding, holder, requested, unqueued, worker,
    working, succeeded, erred⟩ := h
  have hjob : l.job = none ∨ l.job = some false ∨ l.job = some true := by
    rcases l.job with _ | _ | _ <;> simp
  constructor <;> grind

theorem Sound.step {l' : Life} (h : l.Sound) (hs : Step l l') : l'.Sound := by
  cases hs with
  | begun small hp _ hr hs => exact h.begun small hp hr hs
  | attached hp _ => exact h.attached hp
  | submitted hp hr hs => exact h.submitted hp hr hs
  | requested n hn hs => exact h.request hn hs
  | taken n hj hw => exact h.taken hj hw
  | completed n caller hn hp => exact h.completed hn hp
  | started n caller hn hp hj => exact h.started hn hp hj
  | refused n caller hn =>
    refine h.refused hn fun hc hp => ?_
    -- the worker holds nothing else, and no request holds an upload with a job
    obtain ⟨m, caller', hm⟩ := h.held hp
    subst hc
    cases caller' with
    | worker =>
      obtain rfl := h.worker n m _ _ hn hm rfl rfl
      rw [hn] at hm
      cases hm
    | request =>
      have hj := h.working n _ hn rfl (hp ▸ Option.some_ne_none _)
      rw [h.unqueued m hm] at hj
      cases hj
  | published n caller hn => exact h.published hn
  | rolledBack n caller final hn => exact h.rolledBack final hn
  | finished n hn => exact h.finished hn
  | recorded n final hn => exact h.recorded hn
  | dropped small hp => exact h.dropped small hp
  | cleared hp => exact h.cleared hp
  | stopped => exact h.stopped

theorem Sound.steps {l' : Life} (h : l.Sound) (hs : Relation.ReflTransGen Step l l') :
    l'.Sound := by
  induction hs with
  | refl => exact h
  | tail _ hstep ih => exact ih.step hstep

end Life
end RisuNest.Transfer

import Mathlib.Data.List.Induction
import Mathlib.Data.Set.Basic
import Mathlib.Tactic.Common

/-! Ciphers that seal one message after another. With an ideal one, what is opened from the start
of a stream is what its sender sealed from the start, in the same order. -/
namespace RisuNest
variable {κ η β τ : Type}

/-- A message as it is sealed, with its tag and the data that is only authenticated. -/
structure Push (β τ : Type) where
  data : List β
  tag : τ
  message : List β
  deriving DecidableEq

/-- A cipher for streams: both sides start with a key and a header, and go on from what was sealed
so far. -/
structure StreamCipher (κ η β τ : Type) where
  State : Type
  start : κ → η → State
  push : State → Push β τ → List β × State
  pull : State → List β → List β → Option (List β × τ × State)

/-- What was sealed in one stream. -/
structure Session (κ η β τ : Type) where
  key : κ
  header : η
  pushes : List (Push β τ)

lemma concat_isPrefix_iff {α : Type} {done l : List α} {p : α} :
    done ++ [p] <+: l ↔ done <+: l ∧ l[done.length]? = some p := by
  constructor
  · rintro ⟨rest, rfl⟩
    exact ⟨⟨p :: rest,by simp⟩,by simp⟩
  · rintro ⟨⟨rest, rfl⟩, hp⟩
    cases rest with
    | nil => simp at hp
    | cons q rest =>
      obtain rfl : q = p := by simpa using hp
      exact ⟨rest,by simp⟩

namespace StreamCipher
variable (c : StreamCipher κ η β τ)

/-- The state after some messages. -/
def after (s : c.State) (ps : List (Push β τ)) : c.State := ps.foldl (fun s p => (c.push s p).2) s

@[simp] lemma after_nil (s : c.State) : c.after s [] = s := rfl

@[simp] lemma after_append (s : c.State) (ps qs : List (Push β τ)) :
    c.after s (ps ++ qs) = c.after (c.after s ps) qs := List.foldl_append

@[simp] lemma after_singleton (s : c.State) (p : Push β τ) : c.after s [p] = (c.push s p).2 := rfl

/-- This message was sealed in this state. -/
def Pushed (sessions : Set (Session κ η β τ)) (s : c.State) (p : Push β τ) : Prop :=
  ∃ e ∈ sessions, ∃ done, done ++ [p] <+: e.pushes ∧ s = c.after (c.start e.key e.header) done

/-- Nothing is opened but what was sealed in the same state, no two streams or places in a stream
share a state, and every ciphertext is longer by as much. -/
structure Ideal (sessions : Set (Session κ η β τ)) (overhead : ℕ) : Prop where
  length : ∀ s p, (c.push s p).1.length = p.message.length + overhead
  opens : ∀ {s data x m t s'}, c.pull s data x = some (m,t,s') ↔
    c.push s ⟨data,t,m⟩ = (x,s') ∧ c.Pushed sessions s ⟨data,t,m⟩
  fresh : ∀ {k h ps k' h' ps'}, c.after (c.start k h) ps = c.after (c.start k' h') ps' →
    k = k' ∧ h = h' ∧ ps = ps'
  once : ∀ e ∈ sessions, ∀ e' ∈ sessions, e.key = e'.key → e.header = e'.header → e = e'

namespace Ideal
variable {c} {sessions : Set (Session κ η β τ)} {overhead : ℕ}

theorem pull_next (h : c.Ideal sessions overhead) {e : Session κ η β τ} (he : e ∈ sessions)
    {done : List (Push β τ)} {p : Push β τ} (hp : done ++ [p] <+: e.pushes) :
    c.pull (c.after (c.start e.key e.header) done) p.data
      (c.push (c.after (c.start e.key e.header) done) p).1 =
        some (p.message,p.tag,c.after (c.start e.key e.header) (done ++ [p])) := by
  apply h.opens.mpr
  refine ⟨?_,e,he,done,hp,rfl⟩
  rw [after_append]
  rfl

theorem of_pull (h : c.Ideal sessions overhead) {k : κ} {header : η} {done : List (Push β τ)}
    {data x m : List β} {t : τ} {s' : c.State}
    (hpull : c.pull (c.after (c.start k header) done) data x = some (m,t,s')) :
    x = (c.push (c.after (c.start k header) done) ⟨data,t,m⟩).1 ∧
    s' = c.after (c.start k header) (done ++ [⟨data,t,m⟩]) ∧
    ∃ e ∈ sessions, e.key = k ∧ e.header = header ∧ done ++ [⟨data,t,m⟩] <+: e.pushes := by
  obtain ⟨hpush, e, he, done', hdone', hstate⟩ := h.opens.mp hpull
  obtain ⟨rfl, rfl, rfl⟩ := h.fresh hstate
  refine ⟨by rw [hpush],?_,e,he,rfl,rfl,hdone'⟩
  rw [after_append, after_singleton, hpush]

end Ideal
section
variable [DecidableEq κ] [DecidableEq η] [DecidableEq β] [DecidableEq τ]

/-- A cipher that gives the messages of one session these ciphertexts, and opens nothing else. -/
def recorded (e : Session κ η β τ) (texts : List (List β)) (other : Push β τ → List β) :
    StreamCipher κ η β τ where
  State := κ × η × List (Push β τ)
  start k h := (k,h,[])
  push s p := (if s.1 = e.key ∧ s.2.1 = e.header ∧ s.2.2 ++ [p] <+: e.pushes then
    texts.getD s.2.2.length [] else other p,s.1,s.2.1,s.2.2 ++ [p])
  pull s data x :=
    match e.pushes[s.2.2.length]? with
    | none => none
    | some p =>
      if s.1 = e.key ∧ s.2.1 = e.header ∧ s.2.2 <+: e.pushes ∧ p.data = data ∧
          x = texts.getD s.2.2.length [] then some (p.message,p.tag,s.1,s.2.1,s.2.2 ++ [p])
      else none

variable {e : Session κ η β τ} {texts : List (List β)} {other : Push β τ → List β} {overhead : ℕ}

lemma after_recorded (k : κ) (h : η) (ps : List (Push β τ)) :
    (recorded e texts other).after ((recorded e texts other).start k h) ps = (k,h,ps) := by
  induction ps using List.reverseRecOn with
  | nil => rfl
  | append_singleton ps p ih =>
    rw [after_append, ih]
    rfl

lemma pushed_recorded {k : κ} {h : η} {done : List (Push β τ)} {p : Push β τ} :
    (recorded e texts other).Pushed {e} (k,h,done) p ↔
      k = e.key ∧ h = e.header ∧ done ++ [p] <+: e.pushes := by
  constructor
  · rintro ⟨e', he, done', hdone, hstate⟩
    obtain rfl : e' = e := he
    rw [after_recorded] at hstate
    cases hstate
    exact ⟨rfl,rfl,hdone⟩
  · rintro ⟨rfl, rfl, hdone⟩
    exact ⟨e,rfl,done,hdone,(after_recorded _ _ _).symm⟩

theorem recorded_ideal (hother : ∀ p, (other p).length = p.message.length + overhead)
    (htexts : ∀ i p, e.pushes[i]? = some p →
      (texts.getD i []).length = p.message.length + overhead) :
    (recorded e texts other).Ideal {e} overhead where
  length := by
    intro s p
    change (ite _ _ _ : List β).length = _
    split_ifs with h
    · apply htexts
      obtain ⟨rest, hrest⟩ := h.2.2
      rw [← hrest]
      simp
    · exact hother p
  opens := by
    rintro ⟨k, h, done⟩ data x m t s'
    rw [pushed_recorded, concat_isPrefix_iff]
    constructor
    · intro hpull
      change (match e.pushes[done.length]? with | none => none | some p => _) = _ at hpull
      cases hp : e.pushes[done.length]? with
      | none =>
        rw [hp] at hpull
        cases hpull
      | some p =>
        rw [hp] at hpull
        dsimp only at hpull
        split_ifs at hpull with hif
        obtain ⟨rfl, rfl, hdone, rfl, rfl⟩ := hif
        cases hpull
        have hpushed := concat_isPrefix_iff.mpr ⟨hdone,hp⟩
        exact ⟨congrArg (fun x => (x,_)) (if_pos ⟨rfl,rfl,hpushed⟩),rfl,rfl,hdone,rfl⟩
    · rintro ⟨hpush, rfl, rfl, hdone, hp⟩
      have hpushed := concat_isPrefix_iff.mpr ⟨hdone,hp⟩
      obtain ⟨hx, rfl⟩ := Prod.mk.inj hpush
      rw [if_pos ⟨rfl,rfl,hpushed⟩] at hx
      subst hx
      change (match e.pushes[done.length]? with | none => none | some p => _) = _
      rw [hp]
      exact if_pos ⟨rfl,rfl,hdone,rfl,rfl⟩
  fresh := by
    intro k h ps k' h' ps' heq
    rw [after_recorded, after_recorded] at heq
    obtain ⟨hk, hrest⟩ := Prod.mk.inj heq
    exact ⟨hk,Prod.mk.inj hrest⟩
  once := by
    rintro e' rfl e'' rfl - -
    rfl

end

end StreamCipher
end RisuNest

import Mathlib.Data.Set.Basic
import Mathlib.Order.Basic
import Mathlib.Tactic.Common

/-! Last-writer-wins maps in which some versions retire their key for good.

A retired key holds the newest of its retirements, whatever newer versions it was given. A key
that lives under a retired one holds nothing, unless it is retired itself. Every other key holds
its newest version. What a map holds is a function of the set of versions it was given: their
order, grouping and repetition do not matter. -/
namespace RisuNest.Retirement

/-- The vocabulary of a versioned map. -/
structure Scheme (κ ν σ : Type*) where
  key : ν → κ
  stamp : ν → σ
  retires : ν → Prop
  parent : κ → κ → Prop

variable {κ ν σ : Type*} [LinearOrder σ] (S : Scheme κ ν σ)

namespace Scheme

/-- Some version given so far retires the key. -/
def Retired (H : Set ν) (k : κ) : Prop := ∃ c ∈ H, S.retires c ∧ S.key c = k

/-- Some version given so far retires a key this one lives under. -/
def Orphaned (H : Set ν) (k : κ) : Prop := ∃ p, S.parent p k ∧ S.Retired H p

/-- The version of a key that every other version of it given so far is older than. -/
def Newest (H : Set ν) (k : κ) (c : ν) : Prop :=
  c ∈ H ∧ S.key c = k ∧ ∀ d ∈ H, S.key d = k → S.stamp d < S.stamp c ∨ d = c

/-- A map that holds what the versions given so far determine. -/
structure Resolves (H : Set ν) (u : κ → Option ν) : Prop where
  retired : ∀ k, S.Retired H k → ∃ c, u k = some c ∧ S.Newest {d ∈ H | S.retires d} k c
  orphaned : ∀ k, ¬ S.Retired H k → S.Orphaned H k → u k = none
  newest : ∀ k, ¬ S.Retired H k → ¬ S.Orphaned H k → ∀ c, u k = some c → S.Newest H k c
  absent : ∀ k, ¬ S.Retired H k → ¬ S.Orphaned H k → u k = none → ∀ c ∈ H, S.key c ≠ k

variable {S}

theorem Newest.unique {H : Set ν} {k : κ} {c d : ν} (hc : S.Newest H k c) (hd : S.Newest H k d) :
    c = d := by
  rcases hc.2.2 d hd.1 hd.2.1 with h | h
  · rcases hd.2.2 c hc.1 hc.2.1 with h' | h'
    · exact absurd h' (lt_asymm h)
    · exact h'
  · exact h.symm

/-- The versions given determine what a map holds. -/
theorem Resolves.unique {H : Set ν} {u v : κ → Option ν} (hu : S.Resolves H u)
    (hv : S.Resolves H v) : u = v := by
  funext k
  by_cases hr : S.Retired H k
  · obtain ⟨c, hc, nc⟩ := hu.retired k hr
    obtain ⟨d, hd, nd⟩ := hv.retired k hr
    rw [hc, hd, nc.unique nd]
  · by_cases ho : S.Orphaned H k
    · rw [hu.orphaned k hr ho, hv.orphaned k hr ho]
    · cases hc : u k with
      | none =>
        cases hd : v k with
        | none => rfl
        | some d =>
          have nd := hv.newest k hr ho d hd
          exact absurd nd.2.1 (hu.absent k hr ho hc d nd.1)
      | some c =>
        have nc := hu.newest k hr ho c hc
        cases hd : v k with
        | none => exact absurd nc.2.1 (hv.absent k hr ho hd c nc.1)
        | some d => rw [nc.unique (hv.newest k hr ho d hd)]

theorem Resolves.held {H : Set ν} {u : κ → Option ν} (hu : S.Resolves H u) {k : κ} {c : ν}
    (hc : u k = some c) : c ∈ H ∧ S.key c = k ∧ (S.retires c ↔ S.Retired H k) := by
  by_cases hr : S.Retired H k
  · obtain ⟨d, hd, nd⟩ := hu.retired k hr
    rw [hd] at hc
    cases hc
    exact ⟨nd.1.1,nd.2.1,fun _ => hr,fun _ => nd.1.2⟩
  · by_cases ho : S.Orphaned H k
    · rw [hu.orphaned k hr ho] at hc
      cases hc
    · have nc := hu.newest k hr ho c hc
      exact ⟨nc.1,nc.2.1,fun h => ⟨c,nc.1,h,nc.2.1⟩,fun h => absurd h hr⟩

/-- The rule one delivery of versions follows, at most one for each key: a retirement is held
unless a newer one was; what is neither retired nor orphaned holds the newer of the delivered
and the held version; what a delivery does not mention stays, unless it is orphaned. -/
structure Absorbs (S : Scheme κ ν σ) (H D : Set ν) (u u' : κ → Option ν) : Prop where
  one : ∀ c ∈ D, ∀ d ∈ D, S.key c = S.key d → c = d
  retire : ∀ c ∈ D, S.retires c → ∃ w, u' (S.key c) = some w ∧ S.retires w ∧
    (w = c ∨ u (S.key c) = some w) ∧ (S.stamp c < S.stamp w ∨ c = w) ∧
    ∀ d, u (S.key c) = some d → S.retires d → S.stamp d < S.stamp w ∨ d = w
  stayRetired : ∀ k, S.Retired H k → (∀ c ∈ D, S.retires c → S.key c ≠ k) → u' k = u k
  drop : ∀ k, ¬ S.Retired (H ∪ D) k → S.Orphaned (H ∪ D) k → u' k = none
  live : ∀ c ∈ D, ¬ S.Retired (H ∪ D) (S.key c) → ¬ S.Orphaned (H ∪ D) (S.key c) →
    ∃ w, u' (S.key c) = some w ∧ (w = c ∨ u (S.key c) = some w) ∧
      (S.stamp c < S.stamp w ∨ c = w) ∧
      ∀ d, u (S.key c) = some d → S.stamp d < S.stamp w ∨ d = w
  stay : ∀ k, ¬ S.Retired (H ∪ D) k → ¬ S.Orphaned (H ∪ D) k → (∀ c ∈ D, S.key c ≠ k) →
    u' k = u k

omit [LinearOrder σ] in
lemma Retired.mono {H D : Set ν} {k : κ} (h : S.Retired H k) : S.Retired (H ∪ D) k := by
  obtain ⟨c, hc, h⟩ := h
  exact ⟨c,.inl hc,h⟩

omit [LinearOrder σ] in
lemma Orphaned.mono {H D : Set ν} {k : κ} (h : S.Orphaned H k) : S.Orphaned (H ∪ D) k := by
  obtain ⟨p, hp, h⟩ := h
  exact ⟨p,hp,h.mono⟩

lemma older_trans {c d w : ν} (h : S.stamp c < S.stamp d ∨ c = d)
    (h' : S.stamp d < S.stamp w ∨ d = w) : S.stamp c < S.stamp w ∨ c = w := by
  rcases h with h | rfl
  · rcases h' with h' | rfl
    · exact .inl (h.trans h')
    · exact .inl h
  · exact h'

/-- One delivery by the rule carries the determined map of the versions before it to the one of
the versions with it. -/
theorem Resolves.absorb {H D : Set ν} {u u' : κ → Option ν} (hu : S.Resolves H u)
    (ha : Absorbs S H D u u') : S.Resolves (H ∪ D) u' := by
  refine ⟨?_, ha.drop, ?_, ?_⟩
  · intro k hr
    by_cases hd : ∃ c ∈ D, S.retires c ∧ S.key c = k
    · obtain ⟨c, hc, hcr, rfl⟩ := hd
      obtain ⟨w, hw, hwr, hfrom, hcw, hold⟩ := ha.retire c hc hcr
      have hmem : w ∈ H ∪ D ∧ S.key w = S.key c := by
        rcases hfrom with rfl | hfrom
        · exact ⟨.inr hc,rfl⟩
        · have h := hu.held hfrom
          exact ⟨.inl h.1,h.2.1⟩
      refine ⟨w,hw,⟨hmem.1,hwr⟩,hmem.2,?_⟩
      rintro d ⟨hdH | hdD, hdr⟩ hdk
      · obtain ⟨m, hm, nm⟩ := hu.retired (S.key c) ⟨d,hdH,hdr,hdk⟩
        exact older_trans (nm.2.2 d ⟨hdH,hdr⟩ hdk) (hold m hm nm.1.2)
      · rw [ha.one d hdD c hc hdk]
        exact hcw
    · push Not at hd
      have hrH : S.Retired H k := by
        obtain ⟨c, hc | hc, hcr, hck⟩ := hr
        · exact ⟨c,hc,hcr,hck⟩
        · exact absurd hck (hd c hc hcr)
      obtain ⟨m, hm, nm⟩ := hu.retired k hrH
      refine ⟨m,(ha.stayRetired k hrH hd).trans hm,⟨.inl nm.1.1,nm.1.2⟩,nm.2.1,?_⟩
      rintro d ⟨hdH | hdD, hdr⟩ hdk
      · exact nm.2.2 d ⟨hdH,hdr⟩ hdk
      · exact absurd hdk (hd d hdD hdr)
  · intro k hr ho c hc
    have hrH : ¬ S.Retired H k := fun h => hr h.mono
    have hoH : ¬ S.Orphaned H k := fun h => ho h.mono
    by_cases hd : ∃ e ∈ D, S.key e = k
    · obtain ⟨e, he, rfl⟩ := hd
      obtain ⟨w, hw, hfrom, hew, hold⟩ := ha.live e he hr ho
      rw [hw] at hc
      cases hc
      have hmem : c ∈ H ∪ D ∧ S.key c = S.key e := by
        rcases hfrom with rfl | hfrom
        · exact ⟨.inr he,rfl⟩
        · have h := hu.held hfrom
          exact ⟨.inl h.1,h.2.1⟩
      refine ⟨hmem.1,hmem.2,?_⟩
      rintro d (hdH | hdD) hdk
      · cases hm : u (S.key e) with
        | none => exact absurd hdk (hu.absent _ hrH hoH hm d hdH)
        | some m => exact older_trans ((hu.newest _ hrH hoH m hm).2.2 d hdH hdk) (hold m hm)
      · rw [ha.one d hdD e he hdk]
        exact hew
    · push Not at hd
      rw [ha.stay k hr ho hd] at hc
      have nc := hu.newest k hrH hoH c hc
      refine ⟨.inl nc.1,nc.2.1,?_⟩
      rintro d (hdH | hdD) hdk
      · exact nc.2.2 d hdH hdk
      · exact absurd hdk (hd d hdD)
  · intro k hr ho hk c hc hck
    rcases hc with hc | hc
    · by_cases hd : ∃ e ∈ D, S.key e = k
      · obtain ⟨e, he, rfl⟩ := hd
        obtain ⟨w, hw, -⟩ := ha.live e he hr ho
        rw [hw] at hk
        cases hk
      · push Not at hd
        rw [ha.stay k hr ho hd] at hk
        exact hu.absent k (fun h => hr h.mono) (fun h => ho h.mono) hk c hc hck
    · subst hck
      obtain ⟨w, hw, -⟩ := ha.live c hc hr ho
      rw [hw] at hk
      cases hk

/-! ### Winners kept apart -/

/-- A map that holds the newest version given for each key, and nothing for the others. -/
def Keeps (S : Scheme κ ν σ) (H : Set ν) (n : κ → Option ν) : Prop :=
  (∀ k c, n k = some c → S.Newest H k c) ∧ ∀ k, n k = none → ∀ c ∈ H, S.key c ≠ k

theorem Keeps.empty : S.Keeps ∅ fun _ => none :=
  ⟨fun _ _ h => (by cases h),fun _ _ _ h => (by cases h)⟩

/-- Giving one more version, and keeping the newer one for its key. -/
theorem Keeps.insert {H : Set ν} {n n' : κ → Option ν} {c w : ν} (h : S.Keeps H n)
    (hw : n' (S.key c) = some w) (hk : ∀ k, k ≠ S.key c → n' k = n k)
    (hfrom : w = c ∨ n (S.key c) = some w) (hc : S.stamp c < S.stamp w ∨ c = w)
    (hold : ∀ d, n (S.key c) = some d → S.stamp d < S.stamp w ∨ d = w) :
    S.Keeps (insert c H) n' := by
  constructor
  · intro k d hd
    by_cases he : k = S.key c
    · subst he
      rw [hw] at hd
      cases hd
      have hmem : w ∈ Insert.insert c H ∧ S.key w = S.key c := by
        rcases hfrom with rfl | hfrom
        · exact ⟨.inl rfl,rfl⟩
        · have hn := h.1 _ _ hfrom
          exact ⟨.inr hn.1,hn.2.1⟩
      refine ⟨hmem.1,hmem.2,?_⟩
      rintro e (rfl | he) hek
      · exact hc
      · cases hm : n (S.key c) with
        | none => exact absurd hek (h.2 _ hm e he)
        | some m => exact older_trans ((h.1 _ _ hm).2.2 e he hek) (hold m hm)
    · rw [hk k he] at hd
      obtain ⟨hm, hkey, hnew⟩ := h.1 k d hd
      refine ⟨.inr hm,hkey,?_⟩
      rintro e (rfl | hem) hek
      · exact absurd hek.symm he
      · exact hnew e hem hek
  · intro k hn d hd hdk
    by_cases he : k = S.key c
    · subst he
      rw [hw] at hn
      cases hn
    · rw [hk k he] at hn
      rcases hd with rfl | hd
      · exact he hdk.symm
      · exact h.2 k hn d hd hdk

/-- What is seen of the winners: the newest retirement of a retired key, nothing of a key that
lives under a retired one, and otherwise the newest version. -/
structure Sees (S : Scheme κ ν σ) (n r u : κ → Option ν) : Prop where
  retired : ∀ k c, r k = some c → u k = some c
  orphaned : ∀ k, r k = none → (∃ p, S.parent p k ∧ r p ≠ none) → u k = none
  plain : ∀ k, r k = none → (∀ p, S.parent p k → r p = none) → u k = n k

/-- What is seen of the winners is what the versions given determine. -/
theorem Keeps.resolves {H : Set ν} {n r u : κ → Option ν} (hn : S.Keeps H n)
    (hr : S.Keeps {d ∈ H | S.retires d} r) (hu : S.Sees n r u) : S.Resolves H u := by
  have hretired : ∀ k, S.Retired H k ↔ r k ≠ none := by
    intro k
    constructor
    · rintro ⟨c, hc, hcr, hck⟩ hk
      exact hr.2 k hk c ⟨hc,hcr⟩ hck
    · intro hk
      obtain ⟨c, hc⟩ := Option.ne_none_iff_exists'.mp hk
      have nc := hr.1 k c hc
      exact ⟨c,nc.1.1,nc.1.2,nc.2.1⟩
  have hplain : ∀ k, ¬ S.Retired H k → ¬ S.Orphaned H k → u k = n k := by
    intro k hk ho
    refine hu.plain k (not_not.mp (mt (hretired k).mpr hk)) fun p hp => ?_
    by_contra hne
    exact ho ⟨p,hp,(hretired p).mpr hne⟩
  refine ⟨?_,?_,?_,?_⟩
  · intro k hk
    obtain ⟨c, hc⟩ := Option.ne_none_iff_exists'.mp ((hretired k).mp hk)
    exact ⟨c,hu.retired k c hc,hr.1 k c hc⟩
  · rintro k hk ⟨p, hp, hpr⟩
    exact hu.orphaned k (not_not.mp (mt (hretired k).mpr hk)) ⟨p,hp,(hretired p).mp hpr⟩
  · intro k hk ho c hc
    exact hn.1 k c (hplain k hk ho ▸ hc)
  · intro k hk ho hnone
    exact hn.2 k (hplain k hk ho ▸ hnone)

/-! ### Replacing a history by what is seen of it -/

/-- The versions a map holds. -/
def Seen (S : Scheme κ ν σ) (u : κ → Option ν) : Set ν := {c | u (S.key c) = some c}

section
variable {H D : Set ν} {u v : κ → Option ν}

lemma Resolves.seen_subset (hu : S.Resolves H u) {c : ν} (hc : c ∈ S.Seen u) : c ∈ H :=
  (hu.held hc).1

lemma Resolves.retired_seen (hu : S.Resolves H u) (k : κ) :
    S.Retired (S.Seen u ∪ D) k ↔ S.Retired (H ∪ D) k := by
  constructor
  · rintro ⟨c, hc | hc, hcr, hck⟩
    · exact ⟨c,.inl (hu.seen_subset hc),hcr,hck⟩
    · exact ⟨c,.inr hc,hcr,hck⟩
  · rintro ⟨c, hc | hc, hcr, rfl⟩
    · obtain ⟨w, hw, nw⟩ := hu.retired _ ⟨c,hc,hcr,rfl⟩
      refine ⟨w,.inl ?_,nw.1.2,nw.2.1⟩
      change u (S.key w) = some w
      rw [nw.2.1]
      exact hw
    · exact ⟨c,.inr hc,hcr,rfl⟩

lemma Resolves.orphaned_seen (hu : S.Resolves H u) (k : κ) :
    S.Orphaned (S.Seen u ∪ D) k ↔ S.Orphaned (H ∪ D) k := by
  unfold Orphaned
  simp only [hu.retired_seen]

/-- A history may be replaced by what is seen of it: later versions lead to the same map. -/
theorem Resolves.replace (hu : S.Resolves H u) (hv : S.Resolves (S.Seen u ∪ D) v) :
    S.Resolves (H ∪ D) v := by
  have hin : ∀ {c : ν}, c ∈ S.Seen u ∪ D → c ∈ H ∪ D := by
    rintro c (hc | hc)
    · exact .inl (hu.seen_subset hc)
    · exact .inr hc
  have hkey : ∀ {k : κ} {c : ν}, u k = some c → c ∈ S.Seen u := by
    intro k c hc
    change u (S.key c) = some c
    rw [(hu.held hc).2.1]
    exact hc
  refine ⟨?_,?_,?_,?_⟩
  · intro k hk
    obtain ⟨c, hc, nc⟩ := hv.retired k ((hu.retired_seen k).mpr hk)
    refine ⟨c,hc,⟨hin nc.1.1,nc.1.2⟩,nc.2.1,?_⟩
    rintro d ⟨hd | hd, hdr⟩ hdk
    · obtain ⟨w, hw, nw⟩ := hu.retired k ⟨d,hd,hdr,hdk⟩
      exact older_trans (nw.2.2 d ⟨hd,hdr⟩ hdk) (nc.2.2 w ⟨.inl (hkey hw),nw.1.2⟩ nw.2.1)
    · exact nc.2.2 d ⟨.inr hd,hdr⟩ hdk
  · intro k hk ho
    exact hv.orphaned k (mt (hu.retired_seen k).mp hk) ((hu.orphaned_seen k).mpr ho)
  · intro k hk ho c hc
    have nc := hv.newest k (mt (hu.retired_seen k).mp hk) (mt (hu.orphaned_seen k).mp ho) c hc
    refine ⟨hin nc.1,nc.2.1,?_⟩
    rintro d (hd | hd) hdk
    · have hkH : ¬ S.Retired H k := fun h => hk h.mono
      have hoH : ¬ S.Orphaned H k := fun h => ho h.mono
      cases hw : u k with
      | none => exact absurd hdk (hu.absent k hkH hoH hw d hd)
      | some w =>
        have nw := hu.newest k hkH hoH w hw
        exact older_trans (nw.2.2 d hd hdk) (nc.2.2 w (.inl (hkey hw)) nw.2.1)
    · exact nc.2.2 d (.inr hd) hdk
  · intro k hk ho hnone
    have habsent := hv.absent k (mt (hu.retired_seen k).mp hk) (mt (hu.orphaned_seen k).mp ho) hnone
    rintro d (hd | hd) hdk
    · have hkH : ¬ S.Retired H k := fun h => hk h.mono
      have hoH : ¬ S.Orphaned H k := fun h => ho h.mono
      cases hw : u k with
      | none => exact hu.absent k hkH hoH hw d hd hdk
      | some w => exact habsent w (.inl (hkey hw)) (hu.newest k hkH hoH w hw).2.1
    · exact habsent d (.inr hd) hdk

/-- And the other way round: a map determined with a history is determined with what is seen. -/
theorem Resolves.restrict (hu : S.Resolves H u) (hv : S.Resolves (H ∪ D) v) :
    S.Resolves (S.Seen u ∪ D) v := by
  have hkey : ∀ {k : κ} {c : ν}, u k = some c → c ∈ S.Seen u := by
    intro k c hc
    change u (S.key c) = some c
    rw [(hu.held hc).2.1]
    exact hc
  have hout : ∀ {c : ν}, c ∈ S.Seen u ∪ D → c ∈ H ∪ D := by
    rintro c (hc | hc)
    · exact .inl (hu.seen_subset hc)
    · exact .inr hc
  refine ⟨?_,?_,?_,?_⟩
  · intro k hk
    obtain ⟨c, hc, ⟨hm, hcr⟩, hck, hnew⟩ := hv.retired k ((hu.retired_seen k).mp hk)
    refine ⟨c,hc,⟨?_,hcr⟩,hck,fun d hd => hnew d ⟨hout hd.1,hd.2⟩⟩
    rcases hm with hm | hm
    · obtain ⟨w, hw, nw⟩ := hu.retired k ⟨c,hm,hcr,hck⟩
      rcases nw.2.2 c ⟨hm,hcr⟩ hck with hlt | rfl
      · rcases hnew w ⟨.inl nw.1.1,nw.1.2⟩ nw.2.1 with hlt' | rfl
        · exact absurd hlt' (lt_asymm hlt)
        · exact .inl (hkey hw)
      · exact .inl (hkey hw)
    · exact .inr hm
  · intro k hk ho
    exact hv.orphaned k (mt (hu.retired_seen k).mpr hk) ((hu.orphaned_seen k).mp ho)
  · intro k hk ho c hc
    have hkD := mt (hu.retired_seen k).mpr hk
    have hoD := mt (hu.orphaned_seen k).mpr ho
    obtain ⟨hm, hck, hnew⟩ := hv.newest k hkD hoD c hc
    refine ⟨?_,hck,fun d hd => hnew d (hout hd)⟩
    rcases hm with hm | hm
    · cases hw : u k with
      | none =>
        exact absurd hck (hu.absent k (fun h => hkD h.mono) (fun h => hoD h.mono) hw c hm)
      | some w =>
        have nw := hu.newest k (fun h => hkD h.mono) (fun h => hoD h.mono) w hw
        rcases nw.2.2 c hm hck with hlt | rfl
        · rcases hnew w (.inl nw.1) nw.2.1 with hlt' | rfl
          · exact absurd hlt' (lt_asymm hlt)
          · exact .inl (hkey hw)
        · exact .inl (hkey hw)
    · exact .inr hm
  · intro k hk ho hnone c hc
    exact hv.absent k (mt (hu.retired_seen k).mpr hk) (mt (hu.orphaned_seen k).mpr ho) hnone c
      (hout hc)

theorem Resolves.exchange {K : Set ν} (hu : S.Resolves H u) (hk : S.Resolves K u)
    (hv : S.Resolves (H ∪ D) v) : S.Resolves (K ∪ D) v := hk.replace (hu.restrict hv)

lemma Resolves.retired_iff (hu : S.Resolves H u) (k : κ) :
    S.Retired H k ↔ ∃ c, u k = some c ∧ S.retires c := by
  constructor
  · intro hk
    obtain ⟨c, hc, nc⟩ := hu.retired k hk
    exact ⟨c,hc,nc.1.2⟩
  · rintro ⟨c, hc, hr⟩
    exact (hu.held hc).2.2.mp hr

end

/-- A version that no other one given displaces. Two of them may carry the same stamp. -/
def Survives (S : Scheme κ ν σ) (H : Set ν) (c : ν) : Prop :=
  c ∈ H ∧ (S.Retired H (S.key c) → S.retires c) ∧
    (¬ S.Retired H (S.key c) → ¬ S.Orphaned H (S.key c)) ∧
    ∀ d ∈ H, S.key d = S.key c → (S.Retired H (S.key c) → S.retires d) →
      S.stamp d ≤ S.stamp c

/-- Where a map is determined, no two versions of one key survive. -/
theorem Resolves.eq_of_survives {H : Set ν} {u : κ → Option ν} (hu : S.Resolves H u) {c d : ν}
    (hc : S.Survives H c) (hd : S.Survives H d) (hk : S.key c = S.key d) : c = d := by
  have hheld : ∀ {c : ν}, S.Survives H c → u (S.key c) = some c := by
    rintro c ⟨hm, hret, horph, hmax⟩
    by_cases hr : S.Retired H (S.key c)
    · obtain ⟨w, hw, nw⟩ := hu.retired _ hr
      rcases nw.2.2 c ⟨hm,hret hr⟩ rfl with hlt | rfl
      · exact absurd (hmax w nw.1.1 nw.2.1 fun _ => nw.1.2) (not_le_of_gt hlt)
      · exact hw
    · cases hw : u (S.key c) with
      | none => exact absurd rfl (hu.absent _ hr (horph hr) hw c hm)
      | some w =>
        have nw := hu.newest _ hr (horph hr) w hw
        rcases nw.2.2 c hm rfl with hlt | rfl
        · exact absurd (hmax w nw.1 nw.2.1 fun h => absurd h hr) (not_le_of_gt hlt)
        · rfl
  have hcu := hheld hc
  rw [hk, hheld hd] at hcu
  exact (Option.some.inj hcu).symm

/-- Schemes that tell the versions of one key apart alike determine the same map. -/
theorem Resolves.transport {τ : Type*} [LinearOrder τ] {T : Scheme κ ν τ} {H : Set ν}
    {u : κ → Option ν} (hkey : T.key = S.key) (hret : T.retires = S.retires)
    (hpar : T.parent = S.parent)
    (hlt : ∀ c ∈ H, ∀ d ∈ H, S.key c = S.key d → (T.stamp c < T.stamp d ↔ S.stamp c < S.stamp d))
    (hu : S.Resolves H u) : T.Resolves H u := by
  have hretired : ∀ k, T.Retired H k ↔ S.Retired H k := by
    intro k
    rw [Retired, Retired, hkey, hret]
  have horphaned : ∀ k, T.Orphaned H k ↔ S.Orphaned H k := by
    intro k
    simp only [Orphaned, hpar, hretired]
  have hnewest : ∀ {K : Set ν} {k : κ} {c : ν}, K ⊆ H → S.Newest K k c → T.Newest K k c := by
    rintro K k c hK ⟨hc, hk, hnew⟩
    refine ⟨hc,hkey ▸ hk,?_⟩
    intro d hd hdk
    rw [hkey] at hdk
    rw [hlt d (hK hd) c (hK hc) (hdk.trans hk.symm)]
    exact hnew d hd hdk
  refine ⟨?_,?_,?_,?_⟩
  · intro k hk
    obtain ⟨c, hc, nc⟩ := hu.retired k ((hretired k).mp hk)
    refine ⟨c,hc,?_⟩
    rw [hret]
    exact hnewest (fun d hd => hd.1) nc
  · exact fun k hk ho => hu.orphaned k (mt (hretired k).mpr hk) ((horphaned k).mp ho)
  · exact fun k hk ho c hc => hnewest subset_rfl
      (hu.newest k (mt (hretired k).mpr hk) (mt (horphaned k).mpr ho) c hc)
  · intro k hk ho hn
    rw [hkey]
    exact hu.absent k (mt (hretired k).mpr hk) (mt (horphaned k).mpr ho) hn

end Scheme
end RisuNest.Retirement

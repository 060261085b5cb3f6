import RisuNest.Storage.CapturedPages
import RisuNest.Wire.Sizes
import Mathlib.Data.List.Find

/-! A capture that is given the edits of a conversation stores what a capture of all its messages
stores. Old pages are taken over only where the lists line up, and there they are the pages of the
new list too. -/
namespace RisuNest.Storage
open Wire (Crates utf8 isHexLower utf8_isPrefix byteLength)
open Segments

section
variable {cr : Crates} {before after : List Body}

/-! ### Old pages that are taken over -/

/-- Behind the first region the lists line up. -/
def Lined (before after : List Body) : List DirtyRegion → Prop
  | [] => True
  | region :: rest => Aligned before after region.oldEnd region.newEnd rest

lemma Aligned.lined {o n : ℕ} {rs : List DirtyRegion} (h : Aligned before after o n rs) :
    Lined before after rs := by
  cases rs with
  | nil => trivial
  | cons r rs =>
    obtain ⟨k, -, -, -, -, -, -, -, h⟩ := h
    exact h

lemma lined_regionsAt {start : ℕ} {rs : List DirtyRegion} (h : Lined before after rs) :
    Lined before after (regionsAt start rs) ∧
      ∀ region next rest, regionsAt start rs = region :: next :: rest → start < next.newStart := by
  induction rs with
  | nil => exact ⟨trivial,fun _ _ _ h => by cases h⟩
  | cons region rs ih =>
    cases rs with
    | nil => exact ⟨h,fun _ _ _ h => by cases h⟩
    | cons next rest =>
      rw [regionsAt]
      split_ifs with hs
      · exact ih (Aligned.lined h)
      · refine ⟨h,fun r n l he => ?_⟩
        cases he
        exact Nat.not_le.mp hs

lemma pages_at {i start : ℕ} {b : PageBoundary}
    (h : (boundaries cr 0 (pageSegments cr before))[i]? = some b) (hb : b.start = start) :
    ((pageSegments cr before).take i).flatten.length = start ∧
      pageSegments cr (before.drop start) = (pageSegments cr before).drop i := by
  have hsplit : boundaries cr 0 (pageSegments cr before) =
      boundaries cr 0 ((pageSegments cr before).take i) ++
        boundaries cr ((pageSegments cr before).take i).flatten.length
          ((pageSegments cr before).drop i) := by
    conv_lhs => rw [← List.take_append_drop i (pageSegments cr before), boundaries_append,
      Nat.zero_add]
  have hi : i < (pageSegments cr before).length := by
    obtain ⟨hlt, -⟩ := List.getElem?_eq_some_iff.mp h
    rwa [length_boundaries] at hlt
  have hlen : (boundaries cr 0 ((pageSegments cr before).take i)).length = i := by
    rw [length_boundaries, List.length_take]
    omega
  have hstart : ((pageSegments cr before).take i).flatten.length = start := by
    rw [hsplit, List.getElem?_append_right (by omega), hlen, Nat.sub_self] at h
    cases hd : (pageSegments cr before).drop i with
    | nil =>
      rw [hd] at h
      cases h
    | cons page pages =>
      rw [hd, boundaries, List.getElem?_cons_zero] at h
      rw [← hb, ← Option.some.inj h]
  refine ⟨hstart,?_⟩
  rw [← hstart]
  exact segments_drop (List.take_append_drop i _).symm

lemma reuse_eq_some {region : DirtyRegion} {rest : List DirtyRegion} {b : PageBoundary}
    {r : Reused} (hl : Lined before after (region :: rest))
    (hnext : ∀ next more, rest = next :: more → b.start < next.newStart)
    (h : reuse (boundaries cr 0 (pageSegments cr before)) b (region :: rest) = some r) :
    ∃ Q, Q ≠ [] ∧ pageSegments cr (after.drop b.start) =
        Q ++ pageSegments cr (after.drop (b.start + Q.flatten.length)) ∧
      r.pages = boundaries cr b.start Q ∧ (∀ page ∈ Q, page ∈ pageSegments cr before) ∧
      ((r.resume = none ∧ after.length ≤ b.start + Q.flatten.length) ∨
        r.resume = some (b.start + Q.flatten.length,rest)) := by
  have hpages : (indexOf cr before).pages = boundaries cr 0 (pageSegments cr before) := rfl
  unfold reuse at h
  dsimp only at h
  generalize hlimit : reuseLimit (boundaries cr 0 (pageSegments cr before)) rest = limit at h
  split_ifs at h with hend hreuse
  rw [Nat.not_lt] at hend
  obtain ⟨hlt, hat⟩ := hreuse
  obtain ⟨d, hd⟩ := Nat.exists_eq_add_of_le hend
  have hold : b.start - region.newEnd + region.oldEnd = region.oldEnd + d := by omega
  rw [hold] at hlt hat h
  generalize hi : (boundaries cr 0 (pageSegments cr before)).findIdx
    (fun p => decide (p.start = region.oldEnd + d)) = i at hlt hat h
  obtain ⟨found, hfound, -⟩ := Option.map_eq_some_iff.mp hat
  have hstart : found.start = region.oldEnd + d := by
    obtain ⟨hlen, hget⟩ := List.getElem?_eq_some_iff.mp hfound
    have := @List.findIdx_getElem _ (fun p => decide (p.start = region.oldEnd + d))
      (boundaries cr 0 (pageSegments cr before)) (by rw [hi]; exact hlen)
    simp only [hi, decide_eq_true_eq] at this
    rw [← hget]
    exact this
  obtain ⟨hP, hdrop⟩ := pages_at hfound hstart
  -- the pages between the one that was found and the limit
  have hlimlen : limit ≤ (pageSegments cr before).length := by
    rw [← hlimit]
    cases rest with
    | nil => rw [reuseLimit, length_boundaries]
    | cons next more =>
      rw [reuseLimit, restart, ← @length_boundaries cr 0 (pageSegments cr before)]
      exact (Nat.sub_le _ _).trans (List.takeWhile_prefix _).length_le
  have hsplit : (pageSegments cr before).drop i =
      ((pageSegments cr before).take limit).drop i ++ (pageSegments cr before).drop limit := by
    conv_lhs => rw [← List.take_append_drop limit (pageSegments cr before)]
    rw [List.drop_append_of_le_length (by rw [List.length_take]; omega)]
  have htake : (pageSegments cr before).take limit =
      (pageSegments cr before).take i ++ ((pageSegments cr before).take limit).drop i := by
    conv_lhs => rw [← List.take_append_drop i ((pageSegments cr before).take limit)]
    rw [List.take_take, Nat.min_eq_left (by omega)]
  generalize hQ : ((pageSegments cr before).take limit).drop i = Q at hsplit htake
  have hQne : Q ≠ [] := by
    rw [← hQ, Ne, List.drop_eq_nil_iff, List.length_take]
    omega
  have hlimitlen : ((pageSegments cr before).take limit).flatten.length =
      region.oldEnd + d + Q.flatten.length := by
    rw [htake, List.flatten_append, List.length_append, hP]
  have hreused : ((boundaries cr 0 (pageSegments cr before)).take limit).drop i =
      boundaries cr (region.oldEnd + d) Q := by
    have hb : (boundaries cr 0 (pageSegments cr before)).take limit =
        boundaries cr 0 ((pageSegments cr before).take limit) := by
      conv_lhs => rw [← List.take_append_drop limit (pageSegments cr before), boundaries_append]
      rw [List.take_left' (by rw [length_boundaries, List.length_take]; omega)]
    rw [hb, htake, boundaries_append, Nat.zero_add, hP,
      List.drop_left' (by rw [length_boundaries, List.length_take]; omega)]
  have hmem : ∀ page ∈ Q, page ∈ pageSegments cr before := by
    intro page hm
    rw [← hQ] at hm
    exact List.mem_of_mem_take (List.mem_of_mem_drop hm)
  -- the new list has the same pages here
  have hsame : pageSegments cr (after.drop b.start) =
      Q ++ pageSegments cr (after.drop (b.start + Q.flatten.length)) := by
    rw [hsplit] at hdrop
    rw [← List.drop_drop, hd]
    cases rest with
    | nil =>
      have haligned : before.drop region.oldEnd = after.drop region.newEnd := hl
      rw [← List.drop_drop] at hdrop ⊢
      rw [← haligned]
      exact hdrop.trans (congrArg (Q ++ ·) (segments_drop hdrop).symm)
    | cons next more =>
      obtain ⟨k, ho, hn, hk, hoe, -, hole, -, -⟩ := hl
      have hdk : d < k := by
        have := hnext next more rfl
        omega
      have hshort : Q.flatten.length < k - d := by
        obtain ⟨P, R, hseg, htake', -, hP'⟩ := @kept_indexOf cr before next.oldStart
        have hkept : keptPages (indexOf cr before) next.oldStart = limit := hlimit
        rw [hkept] at htake'
        have hPlimit : P = (pageSegments cr before).take limit := by
          have hlen := congrArg List.length htake'
          rw [hpages, length_boundaries, List.length_take, length_boundaries] at hlen
          rw [hseg, List.take_left' (by omega)]
        rcases hP' with hnil | hlt'
        · rw [hPlimit, List.take_eq_nil_iff] at hnil
          rcases hnil with hnil | hnil
          · omega
          · rw [hnil] at hlimlen
            simp only [List.length_nil] at hlimlen
            omega
        · rw [hPlimit, hlimitlen] at hlt'
          omega
      generalize hM : ((before.drop region.oldEnd).take k).drop d = M at *
      have hMlen : M.length = k - d := by
        rw [← hM, List.length_drop, List.length_take, List.length_drop]
        omega
      have hcommon : ∀ l : List Body, l.drop d = (l.take k).drop d ++ l.drop k := by
        intro l
        conv_lhs => rw [← List.take_append_drop k l]
        by_cases hkl : k ≤ l.length
        · rw [List.drop_append_of_le_length (by rw [List.length_take]; omega)]
        · rw [List.drop_eq_nil_of_le (show l.length ≤ k by omega), List.append_nil,
            List.append_nil]
      rw [← List.drop_drop] at hdrop ⊢
      rw [hcommon, hM] at hdrop
      rw [hcommon (after.drop region.newEnd), ← hk, hM]
      exact segments_append following_local hdrop (by rw [hMlen]; exact hshort)
  have hresult := Option.some.inj h
  refine ⟨Q,hQne,hsame,?_,hmem,?_⟩
  · rw [← hresult]
    dsimp only
    rw [hreused, hd, ← boundaries_shift region.oldEnd region.newEnd d Q]
    apply List.map_congr_left
    intro p _
    rw [DirtyRegion.shift, Nat.add_comm]
  · rw [← hresult]
    dsimp only
    cases hget : (boundaries cr 0 (pageSegments cr before))[limit]? with
    | none =>
      left
      refine ⟨rfl,?_⟩
      rw [List.getElem?_eq_none_iff, length_boundaries] at hget
      cases rest with
      | cons next more =>
        -- the page before the next region is not behind the last one
        rw [reuseLimit, restart, ← hpages] at hlimit
        have hw := (List.takeWhile_prefix (l := (indexOf cr before).pages)
          (fun p => decide (p.start < next.oldStart))).length_le
        rw [hpages, length_boundaries] at hw
        rw [hpages] at hlimit
        omega
      | nil =>
        have haligned : before.drop region.oldEnd = after.drop region.newEnd := hl
        have hall : (pageSegments cr before).take limit = pageSegments cr before :=
          List.take_of_length_le hget
        rw [hall, flatten_segments] at hlimitlen
        have hlen := congrArg List.length haligned
        rw [List.length_drop, List.length_drop] at hlen
        omega
    | some p =>
      right
      obtain ⟨hp, -⟩ := pages_at hget rfl
      rw [Option.map_some, DirtyRegion.shift, ← hp, hlimitlen]
      congr 2
      omega

/-! ### One round -/

lemma pageSegments_at {position : ℕ} {b : Body} {rest : List Body}
    (hd : after.drop position = b :: rest) :
    pageSegments cr (after.drop position) = (b :: rest.take (following cr (b :: rest))) ::
        pageSegments cr (after.drop
          (position + (b :: rest.take (following cr (b :: rest))).length)) ∧
      after.drop (position + (b :: rest.take (following cr (b :: rest))).length) =
        rest.drop (following cr (b :: rest)) := by
  have hle : following cr (b :: rest) ≤ rest.length := more_le ..
  have hnext : after.drop (position + (b :: rest.take (following cr (b :: rest))).length) =
      rest.drop (following cr (b :: rest)) := by
    rw [← List.drop_drop, hd, List.length_cons, List.length_take, Nat.min_eq_left hle,
      List.drop_succ_cons]
  refine ⟨?_,hnext⟩
  rw [hnext, hd, pageSegments, segments_cons]

/-- The walk is at a position of the list. -/
structure WalkAt (cr : Crates) (after : List Body) (db : PageDb) (w : Walk) : Prop where
  read : ReadOnly cr after db w.db
  cursor : CursorAt cr w.position (after.drop w.position) w.cursor
  inside : w.position ≤ after.length

lemma filledPage_eq_ok {db : PageDb} {start stop : ℕ} {b : Body} {rest : List Body}
    {hs : List MessageHash} {c : Cursor} (hstop : stop = start + (b :: rest).length)
    {page : PageBoundary × EncodedLogicalObject} :
    filledPage cr start ⟨db,stop,pagePrefix ++ b ++ appended rest,hs,c⟩ = .ok page ↔
      (pageBytes (b :: rest)).length ≤ javascriptMaxSafeInteger ∧
        page = (⟨start,manifestPage cr (b :: rest)⟩,pageObject cr (b :: rest)) := by
  have hobject := @encodedObject_pageBytes cr _ (fun e => codecError e.message) b rest
  unfold filledPage recordCodec
  rw [bind_eq_ok]
  dsimp only
  rw [hobject, hstop, Nat.add_sub_cancel_left]
  split_ifs with hsize
  · simp [hsize, manifestPage, pageObject, pure, Except.pure, eq_comm]
  · simp [hsize]

variable {count : ℕ} {previous : List PageBoundary} {edited : Bool} {db : PageDb}

/-- What a round reuses, if anything. -/
def taken (cr : Crates) (previous : List PageBoundary) (edited : Bool) (w : Walk)
    (page : List Body) : Option Reused :=
  if edited then reuse previous ⟨w.position,manifestPage cr page⟩ (regionsAt w.position w.regions)
  else none

lemma walkPage_eq_ok (hh : HexDigests cr) {w : Walk} (hw : WalkAt cr after db w) {b : Body}
    {rest : List Body} (hd : after.drop w.position = b :: rest) :
    ∃ db' c, ReadOnly cr after db db' ∧
      CursorAt cr (w.position + (b :: rest.take (following cr (b :: rest))).length)
        (after.drop (w.position + (b :: rest.take (following cr (b :: rest))).length)) c ∧
      ∀ y, walkPage cr count previous edited w (w.position,.fromBytes cr b) = .ok y ↔
        (pageBytes (b :: rest.take (following cr (b :: rest)))).length ≤
            javascriptMaxSafeInteger ∧
          match taken cr previous edited w (b :: rest.take (following cr (b :: rest))) with
          | some reused => ∃ w', resumeAt cr count db' reused.resume = .ok w' ∧
              y = (reused.pages,w')
          | none => Admits cr db' (b :: rest.take (following cr (b :: rest))) ∧
              y = ([⟨w.position,manifestPage cr (b :: rest.take (following cr (b :: rest)))⟩],
                ⟨write cr db' (b :: rest.take (following cr (b :: rest))),
                  w.position + (b :: rest.take (following cr (b :: rest))).length,c,
                  regionsAt w.position w.regions⟩) := by
  have hcursor := hw.cursor
  rw [hd] at hcursor
  obtain ⟨db', c, hfill, hread, hc⟩ := fillCaptured_page hh hw.read.rows hd hcursor
  refine ⟨db',c,hw.read.trans hread,by rw [(pageSegments_at hd).2]; exact hc,fun y => ?_⟩
  generalize hpage : b :: rest.take (following cr (b :: rest)) = page at *
  have hfilled := fun y => @filledPage_eq_ok cr db' w.position (w.position + page.length) b
    (rest.take (following cr (b :: rest))) (hashes cr page) c (by rw [hpage]) y
  rw [hpage] at hfilled
  have hrun : walkPage cr count previous edited w (w.position,.fromBytes cr b) = .ok y ↔
      (pageBytes page).length ≤ javascriptMaxSafeInteger ∧
        (match taken cr previous edited w page with
        | some reused => (do
          let resumed ← resumeAt cr count db' reused.resume
          pure (reused.pages,resumed) : StoreResult (List PageBoundary × Walk))
        | none => do
          let stored ← putObject cr db' (manifestPage cr page).hash (pageBytes page) >>=
            fun db => storePageProof db (manifestPage cr page) (hashes cr page)
          pure ([⟨w.position,manifestPage cr page⟩],⟨stored,w.position + page.length,c,
            regionsAt w.position w.regions⟩)) = .ok y := by
    unfold walkPage
    constructor
    · intro h
      obtain ⟨filled, hf, h⟩ := bind_eq_ok.mp h
      obtain rfl := Except.ok.inj (hfill.symm.trans hf)
      obtain ⟨page', hp, h⟩ := bind_eq_ok.mp h
      obtain ⟨hsize, rfl⟩ := (hfilled page').mp hp
      exact ⟨hsize,h⟩
    · rintro ⟨hsize, h⟩
      exact bind_eq_ok.mpr ⟨_,hfill,bind_eq_ok.mpr ⟨_,(hfilled _).mpr ⟨hsize,rfl⟩,h⟩⟩
  rw [hrun]
  refine and_congr_right fun hsize => ?_
  cases taken cr previous edited w page with
  | some reused =>
    dsimp only
    rw [bind_eq_ok]
    simp [pure, Except.pure, eq_comm]
  | none =>
    dsimp only
    rw [bind_eq_ok]
    simp only [storePage_eq_ok hh ⟨⟨b,rest,hpage.symm⟩,hsize⟩, pure, Except.pure,
      Except.ok.injEq]
    constructor
    · rintro ⟨stored, ⟨hadmits, rfl⟩, rfl⟩
      exact ⟨hadmits,rfl⟩
    · rintro ⟨hadmits, rfl⟩
      exact ⟨_,⟨hadmits,rfl⟩,rfl⟩

/-! ### The walk -/

lemma ReadOnly.admits {db' : PageDb} (h : ReadOnly cr after db db') {page : List Body} :
    Admits cr db' page ↔ Admits cr db page := by
  obtain ⟨rows, -, rfl⟩ := h
  exact ⟨fun h => ⟨h.object,h.proof⟩,fun h => ⟨h.object,h.proof⟩⟩

lemma ReadOnly.write {db' : PageDb} (h : ReadOnly cr after db db') (page : List Body) :
    ReadOnly cr after (Storage.write cr db page) (Storage.write cr db' page) := by
  obtain ⟨rows, hr, rfl⟩ := h
  exact ⟨rows,hr,rfl⟩

lemma ReadOnly.writeAll {db' : PageDb} (h : ReadOnly cr after db db') (pages : List (List Body)) :
    ReadOnly cr after (Storage.writeAll cr db pages) (Storage.writeAll cr db' pages) := by
  induction pages generalizing db db' with
  | nil => exact h
  | cons page pages ih => exact ih (h.write page)

lemma ReadOnly.admitsAll {db' : PageDb} (h : ReadOnly cr after db db') {pages : List (List Body)} :
    AdmitsAll cr db' pages ↔ AdmitsAll cr db pages := by
  induction pages generalizing db db' with
  | nil => exact Iff.rfl
  | cons page pages ih => exact and_congr h.admits (ih (h.write page))

lemma resumeAt_eq (hc : count = after.length) (hr : RowsAt cr 0 after db.messages)
    {resume : Option (ℕ × List DirtyRegion)} (hp : ∀ r, resume = some r → r.1 ≤ after.length) :
    ∃ w, resumeAt cr count db resume = .ok w ∧ WalkAt cr after db w ∧
      w.position = (resume.map Prod.fst).getD count ∧ w.regions = (resume.map Prod.snd).getD [] := by
  subst hc
  cases resume with
  | none =>
    refine ⟨_,rfl,⟨ReadOnly.refl hr,?_,le_rfl⟩,rfl,rfl⟩
    rw [List.drop_length]
    exact ⟨rfl,rfl⟩
  | some r =>
    obtain ⟨position, regions⟩ := r
    have hle := hp _ rfl
    dsimp only at hle
    rw [resumeAt]
    split_ifs with hlt
    · obtain ⟨db', c, hq, hread, hcursor⟩ := @queryMessages_eq cr after db position hr
      exact ⟨_,bind_eq_ok.mpr ⟨_,hq,rfl⟩,⟨hread,hcursor,hle⟩,rfl,rfl⟩
    · refine ⟨_,rfl,⟨ReadOnly.refl hr,?_,hle⟩,rfl,rfl⟩
      rw [List.drop_eq_nil_of_le (Nat.not_lt.mp hlt)]
      exact ⟨rfl,rfl⟩

/-- What a walk from a position comes to: the pages it computes, those it writes, and the pages of
the rest of the list. -/
structure Walks (cr : Crates) (before after : List Body) (edited : Bool) (w : Walk)
    (run : StoreResult (List PageBoundary × Walk)) (computed built : List (List Body)) : Prop where
  built_computed : ∀ page ∈ built, page ∈ computed
  computed_page : ∀ page ∈ computed, page ∈ pageSegments cr (after.drop w.position)
  page_built : ∀ page ∈ pageSegments cr (after.drop w.position),
    page ∈ built ∨ edited = true ∧ page ∈ pageSegments cr before
  succeeds : (∃ x, run = .ok x) ↔ Encodable computed ∧ AdmitsAll cr w.db built
  result : ∀ x, run = .ok x →
    x.1 = boundaries cr w.position (pageSegments cr (after.drop w.position)) ∧
      x.2.position = after.length ∧ ReadOnly cr after (writeAll cr w.db built) x.2.db

lemma walks_end {w : Walk} (hw : WalkAt cr after w.db w) (hend : after.drop w.position = []) :
    Walks cr before after edited w (.ok ([],w)) [] [] := by
  refine ⟨by simp,by simp,?_,?_,?_⟩
  · rw [hend, pageSegments, segments_nil]
    simp
  · exact ⟨fun _ => ⟨by simp [Encodable],trivial⟩,fun _ => ⟨_,rfl⟩⟩
  · rintro x hx
    obtain rfl := Except.ok.inj hx
    rw [hend, pageSegments, segments_nil]
    refine ⟨rfl,?_,hw.read⟩
    have := List.drop_eq_nil_iff.mp hend
    have := hw.inside
    change w.position = after.length
    omega

lemma walkPages_walks (hh : HexDigests cr) (hc : count = after.length) {rounds : ℕ} {w : Walk}
    (hw : WalkAt cr after w.db w) (hrounds : after.length ≤ w.position + rounds)
    (hl : edited = true → previous = boundaries cr 0 (pageSegments cr before) ∧
      Lined before after w.regions) :
    ∃ computed built, Walks cr before after edited w
      (walkPages cr count previous edited rounds w) computed built := by
  induction rounds generalizing w with
  | zero => exact ⟨[],[],walks_end hw (List.drop_eq_nil_of_le hrounds)⟩
  | succ rounds ih =>
    have hcursor := hw.cursor
    rw [walkPages]
    cases hd : after.drop w.position with
    | nil =>
      rw [hd] at hcursor
      rw [hcursor.1]
      exact ⟨[],[],walks_end hw hd⟩
    | cons b rest =>
      rw [hd] at hcursor
      rw [hcursor.1]
      dsimp only
      obtain ⟨db', c, hread, hc', hpage⟩ := @walkPage_eq_ok cr after count previous edited w.db hh
        w hw b rest hd
      obtain ⟨hsegments, -⟩ := @pageSegments_at cr after w.position b rest hd
      generalize hseg : b :: rest.take (following cr (b :: rest)) = page at *
      have hpos : 0 < page.length := by
        rw [← hseg]
        exact Nat.succ_pos _
      have hinside : w.position + page.length ≤ after.length := by
        have hlen := congrArg List.length hd
        rw [List.length_drop, List.length_cons] at hlen
        have : page.length ≤ rest.length + 1 := by
          rw [← hseg, List.length_cons]
          exact Nat.succ_le_succ (List.length_take_le' _ _)
        omega
      cases htaken : taken cr previous edited w page with
      | none =>
        rw [htaken] at hpage
        dsimp only at hpage
        obtain ⟨computed, built, hwalks⟩ := @ih ⟨write cr db' page,w.position + page.length,c,
          regionsAt w.position w.regions⟩
          ⟨ReadOnly.refl (by
              change RowsAt cr 0 after db'.messages
              exact hread.rows),hc',hinside⟩
          (by change after.length ≤ w.position + page.length + rounds; omega)
          (fun he => ⟨(hl he).1,(lined_regionsAt (hl he).2).1⟩)
        have hwalks' := hwalks
        obtain ⟨hbc, hcp, hpb, hsucceeds, hresult⟩ := hwalks
        dsimp only at hcp hpb hsucceeds hresult
        rw [(hread.write page).admitsAll] at hsucceeds
        refine ⟨page :: computed,page :: built,?_,?_,?_,?_,?_⟩
        · intro p hp
          rcases List.mem_cons.mp hp with rfl | hp
          · exact List.mem_cons_self
          · exact List.mem_cons_of_mem _ (hbc p hp)
        · intro p hp
          rw [hsegments]
          rcases List.mem_cons.mp hp with rfl | hp
          · exact List.mem_cons_self
          · exact List.mem_cons_of_mem _ (hcp p hp)
        · intro p hp
          rw [hsegments] at hp
          rcases List.mem_cons.mp hp with rfl | hp
          · exact .inl List.mem_cons_self
          · exact (hpb p hp).imp_left (List.mem_cons_of_mem _)
        · rw [encodable_cons, AdmitsAll]
          constructor
          · rintro ⟨x, hx⟩
            obtain ⟨y, hy, hx⟩ := bind_eq_ok.mp hx
            obtain ⟨hsize, hadmits, rfl⟩ := (hpage y).mp hy
            obtain ⟨z, hz, -⟩ := bind_eq_ok.mp hx
            obtain ⟨hen, had⟩ := hsucceeds.mp ⟨z,hz⟩
            exact ⟨⟨hsize,hen⟩,hread.admits.mp hadmits,had⟩
          · rintro ⟨⟨hsize, hen⟩, hadmits, had⟩
            obtain ⟨z, hz⟩ := hsucceeds.mpr ⟨hen,had⟩
            exact ⟨_,bind_eq_ok.mpr ⟨_,(hpage _).mpr ⟨hsize,hread.admits.mpr hadmits,rfl⟩,
              bind_eq_ok.mpr ⟨z,hz,rfl⟩⟩⟩
        · intro x hx
          obtain ⟨y, hy, hx⟩ := bind_eq_ok.mp hx
          obtain ⟨hsize, hadmits, rfl⟩ := (hpage y).mp hy
          obtain ⟨z, hz, hx⟩ := bind_eq_ok.mp hx
          obtain rfl := Except.ok.inj hx
          obtain ⟨hpages, hend, hdb⟩ := hresult z hz
          refine ⟨?_,hend,?_⟩
          · rw [hsegments, boundaries, hpages]
            rfl
          · exact ((hread.write page).writeAll built).trans hdb
      | some r =>
        rw [htaken] at hpage
        dsimp only at hpage
        have hedited : edited = true := by
          rw [taken] at htaken
          split_ifs at htaken with he
          exact he
        obtain ⟨hprevious, hlined⟩ := hl hedited
        rw [taken, if_pos hedited, hprevious] at htaken
        obtain ⟨hlined', hnext⟩ := @lined_regionsAt before after w.position w.regions hlined
        cases hregions : regionsAt w.position w.regions with
        | nil =>
          rw [hregions] at htaken
          cases htaken
        | cons region more =>
          rw [hregions] at htaken hlined'
          obtain ⟨Q, hQ, hsame, hrpages, hold, hresume⟩ := reuse_eq_some hlined'
            (fun next l he => hnext region next l (by rw [hregions, he])) htaken
          dsimp only at hsame hrpages hresume
          have hfirst : page ∈ Q := by
            rw [hsegments] at hsame
            cases Q with
            | nil => exact absurd rfl hQ
            | cons q Q =>
              rw [List.cons_append] at hsame
              rw [(List.cons.inj hsame).1]
              exact List.mem_cons_self
          have hQlen : w.position + Q.flatten.length ≤ after.length := by
            have hlen := congrArg (fun l => l.flatten.length) hsame
            simp only [List.flatten_append, List.length_append, flatten_segments,
              List.length_drop] at hlen
            omega
          have hQpos : 0 < Q.flatten.length := by
            have := (List.sublist_flatten_of_mem hfirst).length_le
            omega
          have hresume' : ∀ r', r.resume = some r' → r'.1 ≤ after.length := by
            intro r' hr'
            rcases hresume with ⟨hn, -⟩ | hs
            · rw [hn] at hr'
              cases hr'
            · rw [hs] at hr'
              cases hr'
              exact hQlen
          obtain ⟨w', hw', hat, hposition, hreg⟩ := resumeAt_eq hc hread.rows hresume'
          have hposition' : w'.position = w.position + Q.flatten.length := by
            rw [hposition]
            rcases hresume with ⟨hn, hle⟩ | hs
            · rw [hn, Option.map_none, Option.getD_none]
              omega
            · rw [hs]
              rfl
          have hlined'' : Lined before after w'.regions := by
            rw [hreg]
            rcases hresume with ⟨hn, hle⟩ | hs
            · rw [hn]
              trivial
            · rw [hs]
              exact Aligned.lined hlined'
          obtain ⟨computed, built, hbc, hcp, hpb, hsucceeds, hresult⟩ := @ih w'
            ⟨ReadOnly.refl hat.read.rows,hat.cursor,hat.inside⟩ (by rw [hposition']; omega)
            (fun _ => ⟨hprevious,hlined''⟩)
          rw [hposition'] at hcp hpb hresult
          rw [(hread.trans hat.read).admitsAll] at hsucceeds
          refine ⟨page :: computed,built,?_,?_,?_,?_,?_⟩
          · exact fun p hp => List.mem_cons_of_mem _ (hbc p hp)
          · intro p hp
            rcases List.mem_cons.mp hp with rfl | hp
            · rw [hsegments]
              exact List.mem_cons_self
            · rw [hsame]
              exact List.mem_append_right _ (hcp p hp)
          · intro p hp
            rw [hsame] at hp
            rcases List.mem_append.mp hp with hp | hp
            · exact .inr ⟨hedited,hold p hp⟩
            · exact hpb p hp
          · rw [encodable_cons]
            constructor
            · rintro ⟨x, hx⟩
              obtain ⟨y, hy, hx⟩ := bind_eq_ok.mp hx
              obtain ⟨hsize, w'', hw'', rfl⟩ := (hpage y).mp hy
              obtain rfl := Except.ok.inj (hw'.symm.trans hw'')
              obtain ⟨z, hz, -⟩ := bind_eq_ok.mp hx
              obtain ⟨hen, had⟩ := hsucceeds.mp ⟨z,hz⟩
              exact ⟨⟨hsize,hen⟩,had⟩
            · rintro ⟨⟨hsize, hen⟩, had⟩
              obtain ⟨z, hz⟩ := hsucceeds.mpr ⟨hen,had⟩
              exact ⟨_,bind_eq_ok.mpr ⟨_,(hpage _).mpr ⟨hsize,w',hw',rfl⟩,
                bind_eq_ok.mpr ⟨z,hz,rfl⟩⟩⟩
          · intro x hx
            obtain ⟨y, hy, hx⟩ := bind_eq_ok.mp hx
            obtain ⟨hsize, w'', hw'', rfl⟩ := (hpage y).mp hy
            obtain rfl := Except.ok.inj (hw'.symm.trans hw'')
            obtain ⟨z, hz, hx⟩ := bind_eq_ok.mp hx
            obtain rfl := Except.ok.inj hx
            obtain ⟨hpages, hend, hdb⟩ := hresult z hz
            refine ⟨?_,hend,?_⟩
            · rw [hsame, boundaries_append, hpages, hrpages]
            · exact ((hread.trans hat.read).writeAll built).trans hdb

/-! ### Saving the index -/

/-- Rows in the order of their starts. -/
abbrev InOrder (pages : List PageBoundary) : Prop := pages.Pairwise fun p q => p.start < q.start

lemma inOrder_boundaries {segs : List (List Body)} (h : ∀ page ∈ segs, page ≠ []) (start : ℕ) :
    InOrder (boundaries cr start segs) ∧ ∀ b ∈ boundaries cr start segs, start ≤ b.start := by
  induction segs generalizing start with
  | nil => exact ⟨List.Pairwise.nil,by simp [boundaries]⟩
  | cons page segs ih =>
    obtain ⟨ho, hle⟩ := ih (fun p hp => h p (List.mem_cons_of_mem _ hp)) (start + page.length)
    have hpos := List.length_pos_of_ne_nil (h page List.mem_cons_self)
    refine ⟨List.pairwise_cons.mpr ⟨fun b hb => ?_,ho⟩,fun b hb => ?_⟩
    · have := hle b hb
      change start < b.start
      omega
    · rcases List.mem_cons.mp hb with rfl | hb
      · exact le_rfl
      · exact (Nat.le_add_right _ _).trans (hle b hb)

lemma inOrder_pages (cr : Crates) (bodies : List Body) :
    InOrder (boundaries cr 0 (pageSegments cr bodies)) :=
  (inOrder_boundaries (fun _ h => ne_nil_of_mem h) 0).1

lemma InOrder.eq_of_start {pages : List PageBoundary} (h : InOrder pages) {p q : PageBoundary}
    (hp : p ∈ pages) (hq : q ∈ pages) (he : p.start = q.start) : p = q := by
  have hn : (pages.map PageBoundary.start).Nodup := by
    rw [List.Nodup, List.pairwise_map]
    exact h.imp Nat.ne_of_lt
  exact List.inj_on_of_nodup_map hn hp hq he

lemma saveRow_eq {rows : List PageBoundary} (h : InOrder rows) {b : PageBoundary}
    (hb : b.page.byteLength < 2^63) :
    ∃ rows', saveRow rows b = .ok rows' ∧ InOrder rows' ∧
      ∀ p, p ∈ rows' ↔ p = b ∨ p ∈ rows ∧ p.start ≠ b.start := by
  unfold saveRow
  split_ifs with hm
  · refine ⟨rows,rfl,h,fun p => ⟨fun hp => ?_,?_⟩⟩
    · by_cases he : p.start = b.start
      · exact .inl (h.eq_of_start hp hm he)
      · exact .inr ⟨hp,he⟩
    · rintro (rfl | ⟨hp, -⟩)
      · exact hm
      · exact hp
  · refine ⟨_,bind_eq_ok.mpr ⟨(),require_eq_ok.mpr hb,rfl⟩,?_,fun p => ?_⟩
    · have hfilter : InOrder (rows.filter fun p => decide (p.start ≠ b.start)) := h.filter _
      have hne : ∀ p ∈ rows.filter fun p => decide (p.start ≠ b.start), p.start ≠ b.start :=
        fun p hp => by simpa using (List.mem_filter.mp hp).2
      generalize (rows.filter fun p => decide (p.start ≠ b.start)) = others at hfilter hne
      induction others with
      | nil => exact List.pairwise_singleton _ _
      | cons p others ih =>
        rw [List.orderedInsert]
        have hp := hne p List.mem_cons_self
        rw [InOrder, List.pairwise_cons] at hfilter
        split_ifs with hle
        · refine List.pairwise_cons.mpr ⟨fun q hq => ?_,List.pairwise_cons.mpr hfilter⟩
          rcases List.mem_cons.mp hq with rfl | hq
          · omega
          · have := hfilter.1 q hq
            omega
        · refine List.pairwise_cons.mpr ⟨fun q hq => ?_,
            ih hfilter.2 fun q hq => hne q (List.mem_cons_of_mem _ hq)⟩
          rcases (List.mem_orderedInsert _).mp hq with rfl | hq
          · omega
          · exact hfilter.1 q hq
    · rw [List.mem_orderedInsert, List.mem_filter]
      simp

lemma saveRows_eq {old pages : List PageBoundary} (ho : InOrder old) (hp : InOrder pages)
    (hb : ∀ b ∈ pages, b.page.byteLength < 2^63) :
    pages.foldlM saveRow (old.filter fun p => decide (p.start ∈ pages.map PageBoundary.start)) =
      .ok pages := by
  have key : ∀ (todo done rows : List PageBoundary), pages = done ++ todo → InOrder rows →
      (∀ p, p ∈ rows ↔ p ∈ done ∨ p ∈ old ∧ p.start ∈ pages.map PageBoundary.start ∧
        p.start ∉ done.map PageBoundary.start) →
      todo.foldlM saveRow rows = .ok pages := by
    intro todo
    induction todo with
    | nil =>
      intro done rows hd hr hm
      rw [List.append_nil] at hd
      subst hd
      rw [List.foldlM_nil]
      refine congrArg Except.ok (List.Pairwise.eq_of_mem_iff hr hp fun p => ?_)
      rw [hm]
      exact ⟨fun h => h.elim id fun h => absurd h.2.1 h.2.2,.inl⟩
    | cons b todo ih =>
      intro done rows hd hr hm
      have hmem : b ∈ pages := hd ▸ List.mem_append_right _ List.mem_cons_self
      obtain ⟨rows', hs, hr', hm'⟩ := saveRow_eq hr (hb b hmem)
      rw [List.foldlM_cons, hs]
      apply ih (done ++ [b]) rows' (by rw [hd, List.append_assoc]; rfl) hr'
      intro p
      rw [hm', hm, List.mem_append, List.mem_singleton, List.map_append, List.mem_append]
      simp only [List.map_cons, List.map_nil, List.mem_singleton]
      constructor
      · rintro (rfl | ⟨hq | ⟨hq, hin, hnot⟩, hne⟩)
        · exact .inl (.inr rfl)
        · exact .inl (.inl hq)
        · exact .inr ⟨hq,hin,fun h => h.elim hnot hne⟩
      · rintro ((hq | rfl) | ⟨hq, hin, hnot⟩)
        · by_cases he : p.start = b.start
          · exact .inl (hp.eq_of_start (hd ▸ List.mem_append_left _ hq) hmem he)
          · exact .inr ⟨.inl hq,he⟩
        · exact .inl rfl
        · rw [not_or] at hnot
          exact .inr ⟨.inr ⟨hq,hin,hnot.1⟩,hnot.2⟩
  apply key pages [] _ rfl (ho.filter _)
  intro p
  simp

lemma byteLength_boundaries {segs : List (List Body)} (he : Encodable segs) {start : ℕ} :
    ∀ b ∈ boundaries cr start segs, b.page.byteLength < 2^63 := by
  have hmax : javascriptMaxSafeInteger < 2^63 := by decide
  induction segs generalizing start with
  | nil => simp [boundaries]
  | cons page segs ih =>
    rw [encodable_cons] at he
    intro b hb
    rcases List.mem_cons.mp hb with rfl | hb
    · exact he.1.trans_lt hmax
    · exact ih he.2 b hb

/-- The manifest of a list of messages. -/
def manifestOf (cr : Crates) (bodies : List Body) : MessageManifest :=
  ⟨manifestSchema,bodies.length,
    (boundaries cr 0 (pageSegments cr bodies)).map PageBoundary.page⟩

lemma saveIndex_eq_ok {bodies : List Body} (ho : InOrder db.pages)
    (he : Encodable (pageSegments cr bodies)) {db' : PageDb} :
    saveIndex cr db (boundaries cr 0 (pageSegments cr bodies)) (manifestOf cr bodies) = .ok db' ↔
      (manifestOf cr bodies).validate = .ok () ∧
        ∃ encoded, (manifestOf cr bodies).encode cr = .ok encoded ∧
          db' = { db with
            pages := boundaries cr 0 (pageSegments cr bodies)
            manifest := some encoded.bytes } := by
  have hrows := saveRows_eq ho (inOrder_pages cr bodies) (byteLength_boundaries he)
  constructor
  · intro h
    obtain ⟨⟨⟩, hvalid, h⟩ := bind_eq_ok.mp h
    obtain ⟨rows, hr, h⟩ := bind_eq_ok.mp h
    obtain ⟨encoded, hencode, h⟩ := bind_eq_ok.mp h
    obtain rfl := Except.ok.inj (hrows.symm.trans hr)
    exact ⟨recordCodec_eq_ok.mp hvalid,encoded,recordCodec_eq_ok.mp hencode,
      (Except.ok.inj h).symm⟩
  · rintro ⟨hvalid, encoded, hencode, rfl⟩
    exact bind_eq_ok.mpr ⟨(),recordCodec_eq_ok.mpr hvalid,bind_eq_ok.mpr ⟨_,hrows,bind_eq_ok.mpr
      ⟨encoded,recordCodec_eq_ok.mpr hencode,rfl⟩⟩⟩

/-! ### The unit value -/

lemma SameObjects.put {db' s : PageDb} (h : SameObjects db db') {hash : String}
    {body : List UInt8} (hp : putObject cr db hash body = .ok s) :
    ∃ s', putObject cr db' hash body = .ok s' ∧ SameObjects s s' := by
  obtain ⟨hvalid, hhash, hsame, rfl⟩ := putObject_eq_ok.mp hp
  refine ⟨_,putObject_eq_ok.mpr ⟨hvalid,hhash,fun b hb => hsame b ?_,rfl⟩,?_,?_⟩
  · rw [h.objects, hb]
  · intro k
    simp [withObject, h.objects]
  · intro k
    simp [withObject, h.verified]

/-- What putting objects leaves alone: the index, and every object that is there. -/
structure Puts (db s : PageDb) : Prop where
  pages : s.pages = db.pages
  manifest : s.manifest = db.manifest
  proofs : s.proofs = db.proofs
  objects : ∀ k v, db.objects.get k = some v → s.objects.get k = some v
  verified : ∀ k v, db.verified.get k = some v → s.verified.get k = some v

lemma Puts.refl (db : PageDb) : Puts db db := ⟨rfl,rfl,rfl,fun _ _ h => h,fun _ _ h => h⟩

lemma Puts.trans {s t : PageDb} (h : Puts db s) (h' : Puts s t) : Puts db t :=
  ⟨h'.pages.trans h.pages,h'.manifest.trans h.manifest,h'.proofs.trans h.proofs,
    fun k v hk => h'.objects k v (h.objects k v hk),
    fun k v hk => h'.verified k v (h.verified k v hk)⟩

lemma puts_putObject {s : PageDb} {hash : String} {body : List UInt8}
    (hp : putObject cr db hash body = .ok s) : Puts db s := by
  obtain ⟨-, -, -, rfl⟩ := putObject_eq_ok.mp hp
  exact ⟨rfl,rfl,rfl,fun _ _ h => Table.get_insertOrIgnore_of_get h,
    fun _ _ h => Table.get_insertOrIgnore_of_get h⟩

lemma Puts.stored {s : PageDb} (h : Puts db s) {page : List Body} (hs : Stored cr db page) :
    Stored cr s page := by
  refine ⟨h.objects _ _ hs.object,?_,by rw [h.proofs]; exact hs.proof⟩
  have := hs.verified
  rw [Table.contains_iff] at this ⊢
  obtain ⟨u, hu⟩ := this
  exact ⟨u,h.verified _ _ hu⟩

lemma SameObjects.putAll {objects : List (String × List UInt8)} {db' s : PageDb}
    (h : SameObjects db db')
    (hp : objects.foldlM (fun db object => putObject cr db object.1 object.2) db = .ok s) :
    Puts db s ∧ ∃ s', objects.foldlM (fun db object => putObject cr db object.1 object.2) db' =
      .ok s' ∧ SameObjects s s' := by
  induction objects generalizing db db' with
  | nil =>
    rw [List.foldlM_nil] at hp
    obtain rfl := Except.ok.inj hp
    exact ⟨Puts.refl db,db',rfl,h⟩
  | cons object objects ih =>
    obtain ⟨m, hm, hp⟩ := foldlM_cons_eq_ok.mp hp
    obtain ⟨m', hm', hsame⟩ := h.put hm
    obtain ⟨hputs, s', hs', hs⟩ := ih hsame hp
    exact ⟨(puts_putObject hm).trans hputs,s',foldlM_cons_eq_ok.mpr ⟨m',hm',hs'⟩,hs⟩

lemma SameObjects.unitValue {m : MessageManifest} {db' s : PageDb} {v : Wire.UnitValue}
    (h : SameObjects db db') (hu : Storage.unitValue cr db m = .ok (v,s)) :
    Puts db s ∧ ∃ s', Storage.unitValue cr db' m = .ok (v,s') ∧ Puts db' s' := by
  obtain ⟨object, hencode, hu⟩ := bind_eq_ok.mp hu
  obtain ⟨db₁, hput, hu⟩ := bind_eq_ok.mp hu
  obtain ⟨described, hd, hu⟩ := bind_eq_ok.mp hu
  obtain ⟨db₂, hall, hu⟩ := bind_eq_ok.mp hu
  obtain ⟨body, hbody, hu⟩ := bind_eq_ok.mp hu
  obtain ⟨db₃, hput', hu⟩ := bind_eq_ok.mp hu
  obtain ⟨value, hvalue, hu⟩ := bind_eq_ok.mp hu
  obtain ⟨rfl, rfl⟩ := Prod.mk.inj (Except.ok.inj hu)
  obtain ⟨e₁, h₁, same₁⟩ := h.put hput
  obtain ⟨puts₂, e₂, h₂, same₂⟩ := same₁.putAll hall
  obtain ⟨e₃, h₃, same₃⟩ := same₂.put hput'
  refine ⟨((puts_putObject hput).trans puts₂).trans (puts_putObject hput'),e₃,?_,?_⟩
  · exact bind_eq_ok.mpr ⟨object,hencode,bind_eq_ok.mpr ⟨e₁,h₁,bind_eq_ok.mpr ⟨described,hd,
      bind_eq_ok.mpr ⟨e₂,h₂,bind_eq_ok.mpr ⟨body,hbody,bind_eq_ok.mpr ⟨e₃,h₃,bind_eq_ok.mpr
      ⟨_,hvalue,rfl⟩⟩⟩⟩⟩⟩⟩
  · have reverse : ∀ {a b : PageDb}, SameObjects a b → SameObjects b a := fun h =>
      ⟨fun k => (h.objects k).symm,fun k => (h.verified k).symm⟩
    exact ((puts_putObject h₁).trans ((reverse same₁).putAll h₂).1).trans (puts_putObject h₃)

/-! ### Captures -/

/-- The rows of a conversation with these messages. -/
structure Conversation (cr : Crates) (bodies : List Body) (db : PageDb) : Prop where
  rows : RowsAt cr 0 bodies db.messages
  count : db.messageCount = some (bodies.length : ℤ)
  bound : bodies.length < 2^63
  order : InOrder db.pages

/-- The stored index is that of these messages, and its pages are all stored. -/
structure Captured (cr : Crates) (bodies : List Body) (db : PageDb) : Prop where
  pages : db.pages = boundaries cr 0 (pageSegments cr bodies)
  encodable : Encodable (pageSegments cr bodies)
  stored : ∀ page ∈ pageSegments cr bodies, Stored cr db page

/-- The end of a capture, once the pages are known. -/
def finish (cr : Crates) (db : PageDb) (bodies : List Body) :
    StoreResult (Wire.UnitValue × PageDb) := do
  let saved ← saveIndex cr db (boundaries cr 0 (pageSegments cr bodies)) (manifestOf cr bodies)
  unitValue cr saved (manifestOf cr bodies)

lemma finish_eq_ok {bodies : List Body} {db' s : PageDb} {v : Wire.UnitValue}
    (hs : SameObjects db db') (ho : InOrder db.pages) (ho' : InOrder db'.pages)
    (he : Encodable (pageSegments cr bodies)) (h : finish cr db bodies = .ok (v,s)) :
    ∃ s', finish cr db' bodies = .ok (v,s') ∧ s'.pages = s.pages ∧ s'.manifest = s.manifest ∧
      s'.pages = boundaries cr 0 (pageSegments cr bodies) ∧
      ∀ page, Stored cr db' page → Stored cr s' page := by
  obtain ⟨saved, hsave, hu⟩ := bind_eq_ok.mp h
  obtain ⟨hvalid, encoded, hencode, rfl⟩ := (saveIndex_eq_ok ho he).mp hsave
  have hsave' := (saveIndex_eq_ok ho' he).mpr ⟨hvalid,encoded,hencode,rfl⟩
  have hsame : SameObjects
      { db with
        pages := boundaries cr 0 (pageSegments cr bodies)
        manifest := some encoded.bytes }
      { db' with
        pages := boundaries cr 0 (pageSegments cr bodies)
        manifest := some encoded.bytes } := ⟨hs.objects,hs.verified⟩
  obtain ⟨hputs, s', hs', hputs'⟩ := hsame.unitValue hu
  refine ⟨s',bind_eq_ok.mpr ⟨_,hsave',hs'⟩,?_,?_,hputs'.pages,fun page hp => ?_⟩
  · rw [hputs'.pages, hputs.pages]
  · rw [hputs'.manifest, hputs.manifest]
  · exact hputs'.stored ⟨hp.object,hp.verified,hp.proof⟩

lemma ReadOnly.same {db' : PageDb} (h : ReadOnly cr after db db') : SameObjects db db' := by
  obtain ⟨rows, -, rfl⟩ := h
  exact ⟨fun _ => rfl,fun _ => rfl⟩

lemma ReadOnly.stored {db' : PageDb} (h : ReadOnly cr after db db') {page : List Body}
    (hs : Stored cr db page) : Stored cr db' page := by
  obtain ⟨rows, -, rfl⟩ := h
  exact ⟨hs.object,hs.verified,hs.proof⟩

lemma writeAll_pages (db : PageDb) (pages : List (List Body)) :
    (writeAll cr db pages).pages = db.pages := by
  induction pages generalizing db with
  | nil => rfl
  | cons page pages ih => exact ih (write cr db page)

lemma ReadOnly.pages {db' : PageDb} (h : ReadOnly cr after db db') : db'.pages = db.pages := by
  obtain ⟨rows, -, rfl⟩ := h
  rfl

/-- What a capture that keeps some first pages comes to. -/
structure Captures (cr : Crates) (before after : List Body) (db : PageDb) (edited : Bool)
    (kept : List (List Body)) (run : StoreResult (Wire.UnitValue × PageDb))
    (computed built : List (List Body)) : Prop where
  built_computed : ∀ page ∈ built, page ∈ computed
  computed_page : ∀ page ∈ computed, page ∈ pageSegments cr after
  page_built : ∀ page ∈ pageSegments cr after,
    page ∈ kept ∨ page ∈ built ∨ edited = true ∧ page ∈ pageSegments cr before
  result : ∀ x, run = .ok x → Encodable computed ∧ AdmitsAll cr db built ∧
    ∃ db', ReadOnly cr after (writeAll cr db built) db' ∧ finish cr db' after = .ok x
  succeeds : Encodable computed → AdmitsAll cr db built →
    ∃ db', ReadOnly cr after (writeAll cr db built) db' ∧
      ∀ x, finish cr db' after = .ok x → run = .ok x

lemma capturePages_captures (hh : HexDigests cr) (hc : Conversation cr after db)
    {regions : Option (List DirtyRegion)} {kept : List (List Body)}
    (hstart : startOf after.length db.pages regions =
      (boundaries cr 0 kept,kept.flatten.length))
    (hkept : pageSegments cr after =
      kept ++ pageSegments cr (after.drop kept.flatten.length))
    (hl : regions.isSome = true → db.pages = boundaries cr 0 (pageSegments cr before) ∧
      Lined before after (regions.getD [])) :
    ∃ computed built, Captures cr before after db regions.isSome kept
      (capturePages cr db after.length regions) computed built := by
  have hinside : kept.flatten.length ≤ after.length := by
    have hlen := congrArg (fun l => l.flatten.length) hkept
    simp only [List.flatten_append, List.length_append, flatten_segments] at hlen
    omega
  obtain ⟨w, hw, hat, hposition, hregions⟩ := @resumeAt_eq cr after after.length db rfl hc.rows
    (some (kept.flatten.length,regions.getD [])) (fun r hr => by
      cases hr
      exact hinside)
  simp only [Option.map_some, Option.getD_some] at hposition hregions
  have hlen : db.messages.length = after.length := by
    have key : ∀ {i : ℕ} {bodies : List Body} {rows : List MessageRow},
        RowsAt cr i bodies rows → rows.length = bodies.length := by
      intro i bodies
      induction bodies generalizing i with
      | nil =>
        intro rows h
        rw [RowsAt] at h
        rw [h]
        rfl
      | cons b bodies ih =>
        rintro rows ⟨row, rest, rfl, -, hrest⟩
        rw [List.length_cons, List.length_cons, ih hrest]
    exact key hc.rows
  obtain ⟨computed, built, hbc, hcp, hpb, hsucceeds, hresult⟩ :=
    @walkPages_walks cr before after after.length db.pages regions.isSome hh rfl
      db.messages.length w ⟨ReadOnly.refl hat.read.rows,hat.cursor,hat.inside⟩
      (by rw [hposition]; omega) (fun he => by rw [hregions]; exact hl he)
  rw [hposition] at hcp hpb hresult
  rw [hat.read.admitsAll] at hsucceeds
  have hpages : boundaries cr 0 kept ++ boundaries cr kept.flatten.length
      (pageSegments cr (after.drop kept.flatten.length)) =
        boundaries cr 0 (pageSegments cr after) := by
    conv_rhs => rw [hkept, boundaries_append, Nat.zero_add]
  -- behind the walk, the rest of the capture sees the pages of the list
  have hrun : ∀ y, walkPages cr after.length db.pages regions.isSome db.messages.length w =
      .ok y → ∀ x, capturePages cr db after.length regions = .ok x ↔
        finish cr y.2.db after = .ok x := by
    intro y hy x
    obtain ⟨hy1, hy2, -⟩ := hresult y hy
    have hfinish : (do
        require (y.2.position = after.length) (codecError "conversation message count mismatch")
        let pages := boundaries cr 0 kept ++ y.1
        let manifest : MessageManifest :=
          ⟨manifestSchema,after.length,pages.map PageBoundary.page⟩
        let saved ← saveIndex cr y.2.db pages manifest
        unitValue cr saved manifest) = finish cr y.2.db after := by
      rw [hy1, hpages, hy2, require_eq_ok.mpr rfl]
      rfl
    rw [← hfinish]
    unfold capturePages
    rw [hstart]
    constructor
    · intro h
      obtain ⟨w', hw', h⟩ := bind_eq_ok.mp h
      obtain rfl := Except.ok.inj (hw.symm.trans hw')
      obtain ⟨y', hy', h⟩ := bind_eq_ok.mp h
      obtain rfl := Except.ok.inj (hy.symm.trans hy')
      exact h
    · intro h
      exact bind_eq_ok.mpr ⟨w,hw,bind_eq_ok.mpr ⟨y,hy,h⟩⟩
  refine ⟨computed,built,hbc,?_,?_,?_,?_⟩
  · intro page hp
    rw [hkept]
    exact List.mem_append_right _ (hcp page hp)
  · intro page hp
    rw [hkept, List.mem_append] at hp
    exact hp.imp_right (hpb page)
  · intro x hx
    obtain ⟨y, hy⟩ : ∃ y, walkPages cr after.length db.pages regions.isSome
        db.messages.length w = .ok y := by
      have hx' := hx
      unfold capturePages at hx'
      rw [hstart] at hx'
      obtain ⟨w', hw', hx'⟩ := bind_eq_ok.mp hx'
      obtain rfl := Except.ok.inj (hw.symm.trans hw')
      obtain ⟨y, hy, -⟩ := bind_eq_ok.mp hx'
      exact ⟨y,hy⟩
    obtain ⟨he, ha⟩ := hsucceeds.mp ⟨y,hy⟩
    exact ⟨he,ha,y.2.db,(hat.read.writeAll built).trans (hresult y hy).2.2,(hrun y hy x).mp hx⟩
  · intro he ha
    obtain ⟨y, hy⟩ := hsucceeds.mpr ⟨he,ha⟩
    exact ⟨y.2.db,(hat.read.writeAll built).trans (hresult y hy).2.2,
      fun x hx => (hrun y hy x).mpr hx⟩

lemma agree_of_stored {s t : List Body} (hs : Stored cr db s) (ht : Stored cr db t) :
    Agree cr s t := by
  intro he
  obtain ⟨p, hp, hproof, hget⟩ := hs.proof
  obtain ⟨q, hq, hproof', hget'⟩ := ht.proof
  have hobject := hs.object
  rw [he, ht.object] at hobject
  rw [he, hget'] at hget
  cases hget
  exact ⟨(Option.some.inj hobject).symm,by rw [hproof, hproof']⟩

lemma proofs_of_encodable (hh : HexDigests cr) {bodies : List Body}
    (he : Encodable (pageSegments cr bodies)) :
    ∀ page ∈ pageSegments cr bodies, ∃ proof, proofOf cr page = .ok proof := by
  intro page hp
  have hsize := he page hp
  obtain ⟨b, rest, rfl⟩ : ∃ (b : Body) (rest : List Body),
      page = b :: rest.take (following cr (b :: rest)) :=
    forall_mem_segments (P := fun page => ∃ (b : Body) (rest : List Body),
      page = b :: rest.take (following cr (b :: rest))) (fun b rest => ⟨b,rest,rfl⟩) hp
  obtain ⟨proof, hproof, -⟩ := proofOf_eq_ok hh hsize
  exact ⟨proof,hproof⟩

lemma Captures.stored {kept computed built : List (List Body)}
    {run : StoreResult (Wire.UnitValue × PageDb)}
    (h : Captures cr before after db edited kept run computed built)
    (hold : edited = true ∨ kept ≠ [] → Captured cr before db)
    (hkept : ∀ page ∈ kept, page ∈ pageSegments cr before)
    (he : Encodable computed) :
    Encodable (pageSegments cr after) ∧
      ∀ page ∈ pageSegments cr after, page ∈ built ∨ Stored cr db page := by
  have hcases : ∀ page ∈ pageSegments cr after,
      page ∈ built ∨ (Captured cr before db ∧ page ∈ pageSegments cr before) := by
    intro page hp
    rcases h.page_built page hp with hk | hb | ⟨hed, hb⟩
    · exact .inr ⟨hold (.inr (List.ne_nil_of_mem hk)),hkept page hk⟩
    · exact .inl hb
    · exact .inr ⟨hold (.inl hed),hb⟩
  constructor
  · intro page hp
    rcases hcases page hp with hb | ⟨hc, hb⟩
    · exact he page (h.built_computed page hb)
    · exact hc.encodable page hb
  · intro page hp
    exact (hcases page hp).imp_right fun ⟨hc, hb⟩ => hc.stored page hb

lemma Captures.agrees (hh : HexDigests cr) (ho : InOrder db.pages)
    {edited' : Bool} {kept computed built kept' computed' built' : List (List Body)}
    {run run' : StoreResult (Wire.UnitValue × PageDb)}
    (h : Captures cr before after db edited kept run computed built)
    (h' : Captures cr before after db edited' kept' run' computed' built')
    (hold : edited = true ∨ kept ≠ [] → Captured cr before db)
    (hold' : edited' = true ∨ kept' ≠ [] → Captured cr before db)
    (hkept : ∀ page ∈ kept, page ∈ pageSegments cr before)
    (hkept' : ∀ page ∈ kept', page ∈ pageSegments cr before)
    {v : Wire.UnitValue} {s : PageDb} (hrun : run = .ok (v,s)) :
    ∃ s', run' = .ok (v,s') ∧ s'.pages = s.pages ∧ s'.manifest = s.manifest ∧
      Captured cr after s' := by
  obtain ⟨he, ha, wdb, hread, hfinish⟩ := h.result _ hrun
  obtain ⟨hen, hstored⟩ := h.stored hold hkept he
  have hproofs := proofs_of_encodable hh hen
  have hbuilt : ∀ page ∈ built, page ∈ pageSegments cr after := fun page hp =>
    h.computed_page page (h.built_computed page hp)
  have hbuilt' : ∀ page ∈ built', page ∈ pageSegments cr after := fun page hp =>
    h'.computed_page page (h'.built_computed page hp)
  -- in the end all pages are stored, so no two are in each other's way
  have hall : ∀ page ∈ pageSegments cr after, Stored cr (writeAll cr db built) page := by
    intro page hp
    rcases hstored page hp with hb | hs
    · exact stored_writeAll (fun q hq => hproofs q (hbuilt q hq)) ha page hb
    · exact hs.writeAll
  have hadmits : ∀ page ∈ pageSegments cr after, Admits cr db page := by
    intro page hp
    rcases hstored page hp with hb | hs
    · exact ((admitsAll_iff fun q hq => hproofs q (hbuilt q hq)).mp ha).1 page hb
    · exact hs.admits
  have admitsSub : ∀ pages : List (List Body), (∀ page ∈ pages, page ∈ pageSegments cr after) →
      AdmitsAll cr db pages := by
    intro pages hsub
    refine (admitsAll_iff fun q hq => hproofs q (hsub q hq)).mpr
      ⟨fun page hp => hadmits page (hsub page hp),?_⟩
    exact List.pairwise_of_forall_mem_list fun s hs t ht =>
      agree_of_stored (hall s (hsub s hs)) (hall t (hsub t ht))
  have ha' := admitsSub built' hbuilt'
  obtain ⟨wdb', hread', hfinish'⟩ := h'.succeeds (fun page hp => hen page (h'.computed_page page hp))
    ha'
  obtain ⟨-, hstored'⟩ := h'.stored hold' hkept' fun page hp =>
    hen page (h'.computed_page page hp)
  have hfull := admitsSub (pageSegments cr after) fun _ h => h
  have hsame := sameObjects_writeAll hproofs hfull ha hbuilt hstored
  have hsame' := sameObjects_writeAll hproofs hfull ha' hbuilt' hstored'
  have hsames : SameObjects wdb wdb' := by
    refine ⟨fun k => ?_,fun k => ?_⟩
    · rw [← hread.same.objects, ← hread'.same.objects, ← hsame.objects, hsame'.objects]
    · rw [← hread.same.verified, ← hread'.same.verified, ← hsame.verified, hsame'.verified]
  obtain ⟨s', hs', hpages, hmanifest, hindex, hkeeps⟩ := finish_eq_ok hsames
    (by rw [hread.pages, writeAll_pages]; exact ho)
    (by rw [hread'.pages, writeAll_pages]; exact ho) hen hfinish
  refine ⟨s',hfinish' _ hs',hpages,hmanifest,hindex,hen,fun page hp => hkeeps page ?_⟩
  apply hread'.stored
  rcases hstored' page hp with hb | hs
  · exact stored_writeAll (fun q hq => hproofs q (hbuilt' q hq)) ha' page hb
  · exact hs.writeAll

lemma captureAll_captures (hh : HexDigests cr) (hc : Conversation cr after db) :
    ∃ computed built, Captures cr before after db false []
      (captureRows cr db none) computed built := by
  have hrun : captureRows cr db none = capturePages cr db after.length none := by
    unfold captureRows
    rw [hc.count]
    rfl
  rw [hrun]
  exact @capturePages_captures cr before after db hh hc none [] rfl (by simp) (fun h => nomatch h)

lemma sum_messageCount (start : ℕ) (segs : List (List Body)) :
    ((boundaries cr start segs).map fun p => p.page.messageCount).sum = segs.flatten.length := by
  induction segs generalizing start with
  | nil => rfl
  | cons page segs ih =>
    rw [boundaries, List.map_cons, List.sum_cons, ih, List.flatten_cons, List.length_append]
    rfl

lemma captureEdited_captures (hh : HexDigests cr) (hc : Conversation cr after db)
    (hp : db.pages = boundaries cr 0 (pageSegments cr before)) (hb : before.length < 2^63)
    {edits : List MessageEdit} (he : Edited before edits after) :
    ∃ edited kept computed built, (∀ page ∈ kept, page ∈ pageSegments cr before) ∧
      Captures cr before after db edited kept (captureRows cr db (some edits)) computed built := by
  have hrun : captureRows cr db (some edits) = (regionsOf after.length db.pages (some edits) >>=
      fun regions => capturePages cr db after.length regions) := by
    unfold captureRows
    rw [hc.count]
    rfl
  cases before with
  | nil =>
    have hnone : regionsOf after.length db.pages (some edits) = .ok none := by
      rw [regionsOf, hp, pageSegments, segments_nil]
      rfl
    rw [hrun, hnone]
    obtain ⟨computed, built, h⟩ := @capturePages_captures cr [] after db hh hc none [] rfl (by simp)
      (fun h => by cases h)
    exact ⟨false,[],computed,built,by simp,h⟩
  | cons b rest =>
    obtain ⟨regions, hregions, haligned⟩ := dirtyRegions_aligned he (Nat.succ_pos _) hb
    generalize hbefore : b :: rest = before at *
    have hsum : (db.pages.map fun p => p.page.messageCount).sum = before.length := by
      rw [hp, sum_messageCount, flatten_segments]
    have hne : db.pages ≠ [] := by
      rw [hp, ← hbefore, pageSegments, segments_cons, boundaries]
      exact List.cons_ne_nil _ _
    have hof : regionsOf after.length db.pages (some edits) = .ok (some regions) := by
      rw [regionsOf, if_neg hne]
      refine bind_eq_ok.mpr ⟨(),require_eq_ok.mpr (by rw [hsum]; omega),
        bind_eq_ok.mpr ⟨regions,?_,rfl⟩⟩
      rw [hsum]
      exact hregions
    rw [hrun, hof]
    have hlined := haligned.lined
    cases regions with
    | nil =>
      have hsame : before = after := by simpa [Aligned] using haligned
      obtain ⟨computed, built, h⟩ := @capturePages_captures cr before after db hh hc (some [])
        (pageSegments cr before) (by rw [startOf, hp, flatten_segments, hsame])
        (by rw [flatten_segments, hsame, List.drop_length, pageSegments, pageSegments,
          segments_nil, List.append_nil]) (fun _ => ⟨hp,hlined⟩)
      exact ⟨true,_,computed,built,fun _ h => h,h⟩
    | cons first more =>
      obtain ⟨k, hk, -, hcommon, hle, -, hlen, -⟩ := haligned
      obtain ⟨P, Q, hs, htake, hposition, hP⟩ := @kept_indexOf cr before first.oldStart
      rw [List.drop_zero, List.drop_zero] at hcommon
      have hkept : pageSegments cr after =
          P ++ pageSegments cr (after.drop P.flatten.length) := by
        rcases hP with rfl | hP
        · simp
        · rw [← List.take_append_drop k before] at hs
          rw [← List.take_append_drop k after, ← hcommon]
          refine segments_append following_local hs ?_
          rw [List.length_take]
          omega
      have hstart : startOf after.length db.pages (some (first :: more)) =
          (boundaries cr 0 P,P.flatten.length) := by
        rw [startOf, hp]
        change (((indexOf cr before).pages.take (keptPages (indexOf cr before) first.oldStart)),
          (((indexOf cr before).pages[keptPages (indexOf cr before) first.oldStart]?).map
            PageBoundary.start).getD 0) = _
        rw [htake, ← hposition, List.head?_drop]
      obtain ⟨computed, built, h⟩ := capturePages_captures hh hc hstart hkept
        (fun _ => ⟨hp,hlined⟩)
      exact ⟨true,P,computed,built,fun page hm => hs ▸ List.mem_append_left _ hm,h⟩

/-- A database still has what a capture left of the index and its pages. -/
structure Keeps (left db : PageDb) : Prop where
  pages : db.pages = left.pages
  objects : ∀ b ∈ left.pages, db.objects.get b.page.hash = left.objects.get b.page.hash
  verified : ∀ b ∈ left.pages, db.verified.get b.page.hash = left.verified.get b.page.hash
  proofs : ∀ b ∈ left.pages, db.proofs.get b.page.hash = left.proofs.get b.page.hash

/-- The stored index is that of an earlier capture of these messages, with edits or without. -/
inductive Earlier (cr : Crates) : List Body → PageDb → Prop
  | all {bodies : List Body} {s left db : PageDb} {v : Wire.UnitValue}
      (hc : Conversation cr bodies s) (h : captureRows cr s none = .ok (v,left))
      (hk : Keeps left db) : Earlier cr bodies db
  | edited {before after : List Body} {edits : List MessageEdit} {s left db : PageDb}
      {v : Wire.UnitValue} (earlier : Earlier cr before s) (hc : Conversation cr after s)
      (he : Edited before edits after) (h : captureRows cr s (some edits) = .ok (v,left))
      (hk : Keeps left db) : Earlier cr after db

lemma hash_mem_boundaries {start : ℕ} {segs : List (List Body)} {page : List Body}
    (h : page ∈ segs) : ∃ b ∈ boundaries cr start segs, b.page.hash = (manifestPage cr page).hash := by
  induction segs generalizing start with
  | nil => cases h
  | cons first segs ih =>
    rcases List.mem_cons.mp h with rfl | h
    · exact ⟨_,List.mem_cons_self,rfl⟩
    · obtain ⟨b, hb, he⟩ := @ih (start + first.length) h
      exact ⟨b,List.mem_cons_of_mem _ hb,he⟩

lemma Captured.keeps {bodies : List Body} {left : PageDb} (h : Captured cr bodies left)
    (hk : Keeps left db) : Captured cr bodies db := by
  refine ⟨hk.pages.trans h.pages,h.encodable,fun page hp => ?_⟩
  obtain ⟨b, hb, he⟩ := @hash_mem_boundaries cr 0 _ page hp
  rw [← h.pages] at hb
  have ho := hk.objects b hb
  have hv := hk.verified b hb
  have hq := hk.proofs b hb
  rw [he] at ho hv hq
  have hstored := h.stored page hp
  exact ⟨ho.trans hstored.object,by rw [Table.contains, hv]; exact hstored.verified,
    by rw [hq]; exact hstored.proof⟩

lemma Earlier.captured (hh : HexDigests cr) {bodies : List Body} (h : Earlier cr bodies db) :
    Captured cr bodies db ∧ bodies.length < 2^63 := by
  induction h with
  | @all bodies s left db v hc h hk =>
    obtain ⟨computed, built, hcaptures⟩ := @captureAll_captures cr [] bodies s hh hc
    obtain ⟨s', hs', -, -, hcaptured⟩ := hcaptures.agrees hh hc.order hcaptures
      (by simp) (by simp) (by simp) (by simp) h
    rw [h] at hs'
    obtain rfl := (Prod.mk.inj (Except.ok.inj hs')).2
    exact ⟨hcaptured.keeps hk,hc.bound⟩
  | @edited before after edits s left db v earlier hc he h hk ih =>
    obtain ⟨edited, kept, computed, built, hkept, hcaptures⟩ :=
      captureEdited_captures hh hc ih.1.pages ih.2 he
    obtain ⟨s', hs', -, -, hcaptured⟩ := hcaptures.agrees hh hc.order hcaptures
      (fun _ => ih.1) (fun _ => ih.1) hkept hkept h
    rw [h] at hs'
    obtain rfl := (Prod.mk.inj (Except.ok.inj hs')).2
    exact ⟨hcaptured.keeps hk,hc.bound⟩

/-- A capture that is given the edits since an earlier one succeeds exactly when a capture of all
messages does, with the same value, index and manifest, and all pages are stored afterwards. Edits
that do not fit a stored index are refused, and nothing changes. -/
theorem edited_capture_agrees (hh : HexDigests cr) (earlier : Earlier cr before db)
    {edits : List MessageEdit} :
    (Conversation cr after db → Edited before edits after →
      (capture cr db (some edits)).1.toOption = (capture cr db none).1.toOption ∧
      (capture cr db (some edits)).2.pages = (capture cr db none).2.pages ∧
      (capture cr db (some edits)).2.manifest = (capture cr db none).2.manifest ∧
      ∀ v, (capture cr db (some edits)).1 = .ok v →
        Captured cr after (capture cr db (some edits)).2) ∧
    (∀ count : ℕ, db.messageCount = some (count : ℤ) → db.pages ≠ [] →
      before.length + insertedCount edits < 2^64 → ¬ Fits count before.length edits →
      capture cr db (some edits) = (.error invalidRange,db)) := by
  obtain ⟨hcaptured, hbound⟩ := earlier.captured hh
  refine ⟨fun hc he => ?_,fun count hcount hne hsum hfits => ?_⟩
  · obtain ⟨computed, built, hall⟩ := @captureAll_captures cr before after db hh hc
    obtain ⟨edited, kept, computed', built', hkept, hsome⟩ :=
      captureEdited_captures hh hc hcaptured.pages hbound he
    have hto := fun {v s} h => @Captures.agrees cr before after edited db hh hc.order false kept
      computed' built' [] computed built _ _ hsome hall (fun _ => hcaptured) (by simp) hkept
      (by simp) v s h
    have hfrom := fun {v s} h => @Captures.agrees cr before after false db hh hc.order edited []
      computed built kept computed' built' _ _ hall hsome (by simp) (fun _ => hcaptured) (by simp)
      hkept v s h
    unfold capture
    cases hfull : captureRows cr db none with
    | ok x =>
      obtain ⟨s', hs', hpages, hmanifest, hc'⟩ := hfrom hfull
      rw [hs']
      exact ⟨rfl,hpages,hmanifest,fun _ _ => hc'⟩
    | error e =>
      cases hpart : captureRows cr db (some edits) with
      | ok x =>
        obtain ⟨s', hs', -⟩ := hto hpart
        rw [hfull] at hs'
        cases hs'
      | error e' => exact ⟨rfl,rfl,rfl,fun _ h => by cases h⟩
  · have hsum' : (db.pages.map fun p => p.page.messageCount).sum = before.length := by
      rw [hcaptured.pages, sum_messageCount, flatten_segments]
    have hrefuse : captureRows cr db (some edits) = .error invalidRange := by
      unfold captureRows
      rw [hcount]
      refine bind_eq_error.mpr (.inr ⟨(),require_eq_ok.mpr (Int.natCast_nonneg _),?_⟩)
      refine bind_eq_error.mpr (.inl ?_)
      rw [regionsOf, if_neg hne]
      refine bind_eq_error.mpr (.inr ⟨(),require_eq_ok.mpr (by rw [hsum']; omega),?_⟩)
      refine bind_eq_error.mpr (.inl ?_)
      rw [hsum', Int.toNat_natCast]
      exact dirtyRegions_refuses hsum hfits
    rw [capture, hrefuse]

end

/-! ### Captures that meet no other object -/

/-- No object and no proof is there under a hash. -/
structure Lacks (db : PageDb) (hash : String) : Prop where
  object : db.objects.get hash = none
  proof : db.proofs.get hash = none

lemma lacks_withObject {db : PageDb} {h k : String} (hl : Lacks db k) (hne : k ≠ h)
    (body : List UInt8) : Lacks (withObject db h body) k := by
  refine ⟨?_,hl.proof⟩
  simp [withObject, hne, hl.object]

lemma lacks_writeAll {cr : Crates} {db : PageDb} {pages : List (List Body)} {k : String}
    (hl : Lacks db k) (hne : ∀ page ∈ pages, k ≠ (manifestPage cr page).hash) :
    Lacks (writeAll cr db pages) k := by
  induction pages generalizing db with
  | nil => exact hl
  | cons page pages ih =>
    have hk := hne page List.mem_cons_self
    apply ih _ fun q hq => hne q (List.mem_cons_of_mem _ hq)
    refine ⟨by rw [write_objects, if_neg hk, hl.object],?_⟩
    rw [write]
    dsimp only
    split
    · rw [Table.get_insertOrIgnore, if_neg hk, hl.proof]
    · exact hl.proof

lemma Lacks.admits {cr : Crates} {db : PageDb} {page : List Body}
    (h : Lacks db (manifestPage cr page).hash) : Admits cr db page := by
  refine ⟨fun body hb => ?_,fun proof l hp => ?_⟩
  · rw [h.object] at hb
    cases hb
  · rw [h.proof] at hp
    cases hp

/-- The hashes of the manifest and of the record of some messages. -/
structure Manifested (cr : Crates) (bodies : List Body) (manifest record : String) : Prop where
  encoded : ∃ object, (manifestOf cr bodies).encode cr = .ok object ∧ object.hash = manifest
  described : ∃ deps body, referencePages cr (contentDescriptor manifest)
      (((manifestOf cr bodies).pages.map ManifestPage.hash).insertionSort (· ≤ ·)).dedup =
        .ok ({ contentDescriptor manifest with dependencies := deps },[]) ∧
    { contentDescriptor manifest with dependencies := deps }.validate = .ok () ∧
    { contentDescriptor manifest with dependencies := deps }.bytes = .ok body ∧
    Wire.hash cr body = record
  ne : record ≠ manifest

lemma finish_succeeds {cr : Crates} {db : PageDb} {bodies : List Body} {manifest record : String}
    (hh : HexDigests cr) (ho : InOrder db.pages) (he : Encodable (pageSegments cr bodies))
    (hm : Manifested cr bodies manifest record) (h1 : Lacks db manifest) (h2 : Lacks db record) :
    ∃ v s, finish cr db bodies = .ok (v,s) ∧
      ∀ k, Lacks db k → k ≠ manifest → k ≠ record → Lacks s k := by
  obtain ⟨⟨object, hencode, rfl⟩, ⟨deps, body, hrefs, hvalid, hbody, rfl⟩, hne⟩ := hm
  have hparts := hencode
  obtain ⟨⟨⟩, hmanifest, hparts⟩ := bind_eq_ok.mp hparts
  obtain ⟨bytes, -, hparts⟩ := bind_eq_ok.mp hparts
  obtain ⟨⟨⟩, -, hparts⟩ := bind_eq_ok.mp hparts
  have hhash : object.hash = cr.sha256 object.bytes := by
    rw [← Except.ok.inj hparts]
  have hsave := (saveIndex_eq_ok ho he).mpr ⟨hmanifest,object,hencode,rfl⟩
  generalize hindexed : ({ db with
    pages := boundaries cr 0 (pageSegments cr bodies)
    manifest := some object.bytes } : PageDb) = indexed at hsave
  have hlacks : ∀ k, Lacks db k → Lacks indexed k := by
    intro k hk
    rw [← hindexed]
    exact ⟨hk.object,hk.proof⟩
  have hdescribed : manifestDescriptor cr (manifestOf cr bodies) =
      .ok ({ contentDescriptor object.hash with dependencies := deps },[]) :=
    bind_eq_ok.mpr ⟨object,recordCodec_eq_ok.mpr hencode,bind_eq_ok.mpr ⟨_,hrefs,
      bind_eq_ok.mpr ⟨(),wireCodec_eq_ok.mpr hvalid,rfl⟩⟩⟩
  have hvalue : objectValue cr { contentDescriptor object.hash with dependencies := deps } =
      .ok (.object (Wire.hash cr body) { contentDescriptor object.hash with dependencies := deps }) :=
    bind_eq_ok.mpr ⟨_,bind_eq_ok.mpr ⟨body,hbody,rfl⟩,rfl⟩
  have hobject := lacks_withObject (hlacks _ h2) hne object.bytes
  refine ⟨_,withObject (withObject indexed object.hash object.bytes) (Wire.hash cr body) body,
    bind_eq_ok.mpr ⟨_,hsave,bind_eq_ok.mpr ⟨object,recordCodec_eq_ok.mpr hencode,
      bind_eq_ok.mpr ⟨_,putObject_eq_ok.mpr ⟨?_,hhash.symm,?_,rfl⟩,
        bind_eq_ok.mpr ⟨_,hdescribed,bind_eq_ok.mpr ⟨_,rfl,
          bind_eq_ok.mpr ⟨body,wireCodec_eq_ok.mpr hbody,
            bind_eq_ok.mpr ⟨_,putObject_eq_ok.mpr ⟨?_,rfl,?_,rfl⟩,
              bind_eq_ok.mpr ⟨_,wireCodec_eq_ok.mpr hvalue,rfl⟩⟩⟩⟩⟩⟩⟩⟩,?_⟩
  · rw [hhash]
    exact validateHash_of_isHash (hh _)
  · intro b hb
    rw [(hlacks _ h1).object] at hb
    cases hb
  · exact validateHash_of_isHash (hh body)
  · intro b hb
    rw [hobject.object] at hb
    cases hb
  · intro k hk hkm hkr
    exact lacks_withObject (lacks_withObject (hlacks k hk) hkm _) hkr _

lemma captureAll_succeeds {cr : Crates} {db : PageDb} {bodies : List Body}
    {manifest record : String} (hh : HexDigests cr) (hc : Conversation cr bodies db)
    (he : Encodable (pageSegments cr bodies)) (hm : Manifested cr bodies manifest record)
    (hone : ∀ s ∈ pageSegments cr bodies, ∀ t ∈ pageSegments cr bodies, s = t)
    (hpage : ∀ page ∈ pageSegments cr bodies, Lacks db (manifestPage cr page).hash ∧
      manifest ≠ (manifestPage cr page).hash ∧ record ≠ (manifestPage cr page).hash)
    (h1 : Lacks db manifest) (h2 : Lacks db record) :
    ∃ v s, captureRows cr db none = .ok (v,s) ∧
      ∀ k, Lacks db k → k ≠ manifest → k ≠ record →
        (∀ page ∈ pageSegments cr bodies, k ≠ (manifestPage cr page).hash) → Lacks s k := by
  obtain ⟨computed, built, hcaptures⟩ := @captureAll_captures cr [] bodies db hh hc
  have hbuilt : ∀ page ∈ built, page ∈ pageSegments cr bodies := fun page hp =>
    hcaptures.computed_page page (hcaptures.built_computed page hp)
  have hadmits : AdmitsAll cr db built := by
    refine (admitsAll_iff fun page hp => proofs_of_encodable hh he page (hbuilt page hp)).mpr
      ⟨fun page hp => (hpage page (hbuilt page hp)).1.admits,?_⟩
    apply List.pairwise_of_forall_mem_list
    intro s hs t ht _
    rw [hone s (hbuilt s hs) t (hbuilt t ht)]
    exact ⟨rfl,rfl⟩
  obtain ⟨db', hread, hrun⟩ := hcaptures.succeeds
    (fun page hp => he page (hcaptures.computed_page page hp)) hadmits
  have hkeep : ∀ k, Lacks db k → (∀ page ∈ pageSegments cr bodies,
      k ≠ (manifestPage cr page).hash) → Lacks db' k := by
    intro k hk hne
    obtain ⟨rows, -, rfl⟩ := hread
    have := lacks_writeAll hk fun page hp => hne page (hbuilt page hp)
    exact ⟨this.object,this.proof⟩
  obtain ⟨v, s, hfinish, hlacks⟩ := finish_succeeds hh
    (by rw [hread.pages, writeAll_pages]; exact hc.order) he hm
    (hkeep _ h1 fun page hp => (hpage page hp).2.1)
    (hkeep _ h2 fun page hp => (hpage page hp).2.2)
  exact ⟨v,s,hrun _ hfinish,fun k hk hkm hkr hne => hlacks k (hkeep k hk hne) hkm hkr⟩

/-! ### A conversation that gets its first and second message -/

/-- The start and the end of each text that is hashed, with the hash. -/
def captureDigests : List (String × String × String) :=
  [("\x7b\x7d","","44136fa355b3678a1146ad16f7e8649e94fb4fc21fe77e8310c060f61caaff8a"),
    ("[]","","4f53cda18c2baa0c0354bb5f9a3ecbe5ed12ab4d8e11ba873c2f11161202b945"),
    ("\x7b\"messageCount\":\"0\"","",
      "6e57db5c8cb2e7168995cf47a5908fabcf6af902f9320ae20a8be08c13407daf"),
    ("\x7b\"messageCount\":\"1\"","",
      "ef2daf3a3a0bc3308101f343597b64ca912e905f4020d0051aecb831c522f723"),
    ("\x7b\"messageCount\":\"2\"","",
      "66e175da4c41c0e7d1d28d085c31a4156a7dc985d9623b9ec8f545d25d1eaf3d"),
    ("\x7b\"dependencies\":[],","",
      "b5e97da24b728468e528d52f4ace95b20dad611de668b5fc63fcafcbb5bc680e"),
    ("\x7b\"dependencies\":[\"08","",
      "75d2145a856c2e3dedb5641564f02d93ac47f9866661ef55eebf2d59ad594ea1"),
    ("\x7b\"dependencies\":[\"70","",
      "26e04337f002fe482decafc5ac896ba24cd5fca4e8cc061fd81420b8c18c5fea"),
    ("","[\x7b\x7d]\x7d","08ac993c7607bfbd1523966be13df5ca0cf57f6eed11a99ee8f68a3285b87c84"),
    ("","[\x7b\x7d,[]]\x7d",
      "708039df26eed9e7bdb14f64c14f7476e990c9b7e3a00762b5eefeb141f84aa2")]

def captureDigest (bytes : List UInt8) : Option (String × String × String) :=
  captureDigests.find? fun e =>
    (utf8 e.1.toList).isPrefixOf bytes && (utf8 e.2.1.toList).isSuffixOf bytes

def captureCrates : Crates :=
  { Wire.tabulated [] [] [("\x7b\x7d",.obj []),("[]",.arr [])] with
    sha256 := fun bytes => ((captureDigest bytes).map fun e => e.2.2).getD
      "0000000000000000000000000000000000000000000000000000000000000000" }

lemma isHash_ofList {l : List Char} (h : (l.length = 64 && l.all isHexLower) = true) :
    isHash (String.ofList l) = true := by
  rw [isHash, String.toList_ofList]
  exact h

lemma hexDigests_capture : HexDigests captureCrates := by
  intro bytes
  change isHash (((captureDigest bytes).map fun e => e.2.2).getD _) = true
  cases hf : captureDigest bytes with
  | none => exact isHash_ofList (by decide)
  | some e =>
    have h : ∀ e ∈ captureDigests, isHash e.2.2 = true := by
      unfold captureDigests
      simp only [List.forall_mem_cons]
      refine ⟨?_,?_,?_,?_,?_,?_,?_,?_,?_,?_,List.forall_mem_nil _⟩
      all_goals exact isHash_ofList (by decide)
    exact h e (List.mem_of_find?_eq_some hf)

def captureRow (index : ℕ) (text : String) : MessageRow := ⟨index,utf8 text.toList,"",0⟩

def emptyConversation : PageDb := ⟨some 0,[],[],none,.empty,.empty,.empty,.empty⟩

/-- The first message, after a capture of none. -/
def firstMessage : PageDb :=
  { (capture captureCrates emptyConversation none).2 with
    messageCount := some 1
    messages := [captureRow 0 "\x7b\x7d"] }

/-- The second message, after a capture of the first. -/
def secondMessage : PageDb :=
  { (capture captureCrates firstMessage none).2 with
    messageCount := some 2
    messages := [captureRow 0 "\x7b\x7d",captureRow 1 "[]"] }

def succeeds (x : StoreResult Wire.UnitValue × PageDb) : Bool := x.1.toOption.isSome

/-- The entry of a text that starts like this. -/
def startDigest (start : List UInt8) : Option (String × String × String) :=
  if (captureDigests.take 8).all fun e => decide ((utf8 e.1.toList).length ≤ start.length) then
    (captureDigests.take 8).find? fun e => (utf8 e.1.toList).isPrefixOf start
  else none

lemma sha256_of_start {start bytes : List UInt8} {e : String × String × String}
    (h : start <+: bytes) (he : startDigest start = some e) :
    captureCrates.sha256 bytes = e.2.2 := by
  have hempty : ∀ e ∈ captureDigests.take 8, e.2.1 = "" := by
    simp [captureDigests]
  obtain ⟨rest, rfl⟩ := h
  unfold startDigest at he
  split_ifs at he with hlen
  rw [List.all_eq_true] at hlen
  have hsame : ∀ e ∈ captureDigests.take 8,
      ((utf8 e.1.toList).isPrefixOf (start ++ rest) &&
        (utf8 e.2.1.toList).isSuffixOf (start ++ rest)) = (utf8 e.1.toList).isPrefixOf start := by
    intro e hm
    have hle := of_decide_eq_true (hlen e hm)
    rw [hempty e hm, Bool.eq_iff_iff]
    simp only [String.toList_empty, Bool.and_eq_true, List.isPrefixOf_iff_prefix]
    constructor
    · rintro ⟨hp, -⟩
      exact List.prefix_of_prefix_length_le hp (List.prefix_append start rest) hle
    · intro hp
      exact ⟨hp.trans (List.prefix_append start rest),List.isSuffixOf_iff_suffix.mpr
        (List.nil_suffix)⟩
  change ((captureDigests.find? _).map fun e => e.2.2).getD _ = _
  have hsplit : captureDigests = captureDigests.take 8 ++ captureDigests.drop 8 :=
    (List.take_append_drop 8 _).symm
  have hfind : captureDigest (start ++ rest) = some e := by
    rw [captureDigest, hsplit, List.find?_append]
    have hfirst : (captureDigests.take 8).find? (fun e =>
        (utf8 e.1.toList).isPrefixOf (start ++ rest) &&
          (utf8 e.2.1.toList).isSuffixOf (start ++ rest)) = some e := by
      rw [← he]
      exact List.find?_congr hsame
    rw [hfirst]
    rfl
  change ((captureDigest (start ++ rest)).map fun e => e.2.2).getD _ = _
  rw [hfind]
  rfl

section
open Wire.Payload (sortMembers sortItems sortEach keyLe)

lemma sorted_manifest (m : MessageManifest) : sortMembers m.toJson =
    .obj [("messageCount",.str m.messageCount.repr),
      ("pages",.arr (sortItems (m.pages.map ManifestPage.toJson))),
      ("schema",.str m.schema)] := by
  have h1 : keyLe "messageCount" "pages" = true := by decide
  have h2 : keyLe "schema" "messageCount" = false := by decide
  have h3 : keyLe "schema" "pages" = false := by decide
  simp [MessageManifest.toJson, sortMembers, sortEach, List.insertionSort, List.orderedInsert, h1,
    h2, h3]

/-- How the texts of a manifest and of its record start. -/
def manifestStart (m : MessageManifest) : List Char :=
  '{' :: (Wire.writeString "messageCount" ++
    ':' :: (Wire.writeString m.messageCount.repr ++ ',' :: Wire.writeString "pages"))

def recordStart (deps : List String) : List Char :=
  '{' :: (Wire.writeString "dependencies" ++
    ':' :: ((Wire.Control.strings deps).write ++ ',' :: Wire.writeString "dependencyRoot"))

lemma manifestStart_isPrefix {m : MessageManifest} :
    manifestStart m <+: Wire.Payload.write captureCrates (sortMembers m.toJson) := by
  rw [sorted_manifest]
  simp only [Wire.Payload.write, Wire.Payload.writeMembers, manifestStart, List.cons_prefix_cons, true_and,
    List.prefix_append_right_inj, List.prefix_append]

lemma recordStart_isPrefix {d : Wire.RecordDescriptor} :
    recordStart d.dependencies <+: d.toControl.write := by
  simp only [Wire.RecordDescriptor.toControl, Wire.Control.write, Wire.Control.writeMembers,
    recordStart, List.cons_prefix_cons, true_and, List.prefix_append_right_inj, List.prefix_append]

lemma manifested {bodies : List Body} {m : MessageManifest}
    {e e' : String × String × String} {deps : List String}
    (hm : manifestOf captureCrates bodies = m) (hvalid : m.validate = .ok ())
    (hshallow : Wire.Payload.shallow 0 m.toJson = true)
    (hsize : byteLength (Wire.Payload.write captureCrates (sortMembers m.toJson)) ≤
      javascriptMaxSafeInteger)
    (he : startDigest (utf8 (manifestStart m)) = some e)
    (hdeps : ((m.pages.map ManifestPage.hash).insertionSort (· ≤ ·)).dedup = deps)
    (hinline : Wire.inlineReferences deps = true)
    (hrecord : { contentDescriptor e.2.2 with dependencies := deps }.validate = .ok ())
    (he' : startDigest (utf8 (recordStart deps)) = some e') (hne : e'.2.2 ≠ e.2.2) :
    Manifested captureCrates bodies e.2.2 e'.2.2 := by
  subst hm hdeps
  refine ⟨⟨_,bind_eq_ok.mpr ⟨(),hvalid,bind_eq_ok.mpr ⟨_,?_,bind_eq_ok.mpr
    ⟨(),require_eq_ok.mpr hsize,rfl⟩⟩⟩,?_⟩,⟨_,_,?_,hrecord,bind_eq_ok.mpr ⟨(),hrecord,rfl⟩,?_⟩,hne⟩
  · rw [Wire.Payload.encode, if_pos hshallow]
    rfl
  · exact sha256_of_start (utf8_isPrefix manifestStart_isPrefix) he
  · rw [referencePages, if_pos hinline]
  · exact sha256_of_start (utf8_isPrefix recordStart_isPrefix) he'


end

/-- The hashes of the manifests, of their records and of the pages. -/
def emptyManifest : String := "6e57db5c8cb2e7168995cf47a5908fabcf6af902f9320ae20a8be08c13407daf"
def emptyRecord : String := "b5e97da24b728468e528d52f4ace95b20dad611de668b5fc63fcafcbb5bc680e"
def firstManifest : String := "ef2daf3a3a0bc3308101f343597b64ca912e905f4020d0051aecb831c522f723"
def firstRecord : String := "75d2145a856c2e3dedb5641564f02d93ac47f9866661ef55eebf2d59ad594ea1"
def bothManifest : String := "66e175da4c41c0e7d1d28d085c31a4156a7dc985d9623b9ec8f545d25d1eaf3d"
def bothRecord : String := "26e04337f002fe482decafc5ac896ba24cd5fca4e8cc061fd81420b8c18c5fea"

def firstPage : ManifestPage :=
  ⟨"08ac993c7607bfbd1523966be13df5ca0cf57f6eed11a99ee8f68a3285b87c84",1,61⟩

def bothPage : ManifestPage :=
  ⟨"708039df26eed9e7bdb14f64c14f7476e990c9b7e3a00762b5eefeb141f84aa2",2,64⟩

lemma page_samples : manifestPage captureCrates [utf8 "\x7b\x7d".toList] = firstPage ∧
    manifestPage captureCrates [utf8 "\x7b\x7d".toList,utf8 "[]".toList] = bothPage ∧
    following captureCrates [utf8 "\x7b\x7d".toList,utf8 "[]".toList] = 1 := by
  refine ⟨?_,?_,?_⟩
  · decide
  · decide
  · decide

lemma pages_first : pageSegments captureCrates [utf8 "\x7b\x7d".toList] =
    [[utf8 "\x7b\x7d".toList]] := by
  rw [pageSegments, segments_cons, List.drop_nil, List.take_nil, segments_nil]

lemma pages_both : pageSegments captureCrates [utf8 "\x7b\x7d".toList,utf8 "[]".toList] =
    [[utf8 "\x7b\x7d".toList,utf8 "[]".toList]] := by
  rw [pageSegments, segments_cons, page_samples.2.2]
  simp [segments_nil]

lemma manifestOf_first : manifestOf captureCrates [utf8 "\x7b\x7d".toList] =
    ⟨manifestSchema,1,[firstPage]⟩ := by
  rw [manifestOf, pages_first, ← page_samples.1]
  rfl

lemma manifestOf_both : manifestOf captureCrates [utf8 "\x7b\x7d".toList,utf8 "[]".toList] =
    ⟨manifestSchema,2,[bothPage]⟩ := by
  rw [manifestOf, pages_both, ← page_samples.2.1]
  rfl

lemma manifested_samples : Manifested captureCrates [] emptyManifest emptyRecord ∧
    Manifested captureCrates [utf8 "\x7b\x7d".toList] firstManifest firstRecord ∧
    Manifested captureCrates [utf8 "\x7b\x7d".toList,utf8 "[]".toList] bothManifest
      bothRecord := by
  refine ⟨?_,?_,?_⟩
  · apply @manifested [] ⟨manifestSchema,0,[]⟩ ("\x7b\"messageCount\":\"0\"","",emptyManifest)
      ("\x7b\"dependencies\":[],","",emptyRecord) []
    · rw [manifestOf, pageSegments, segments_nil]
      rfl
    · decide
    · rfl
    · decide
    · decide
    · rfl
    · decide
    · decide
    · decide
    · decide
  · apply @manifested _ ⟨manifestSchema,1,[firstPage]⟩
      ("\x7b\"messageCount\":\"1\"","",firstManifest)
      ("\x7b\"dependencies\":[\"08","",firstRecord) [firstPage.hash] manifestOf_first
    · decide
    · rfl
    · decide +kernel
    · decide
    · rfl
    · decide
    · decide
    · decide
    · decide
  · apply @manifested _ ⟨manifestSchema,2,[bothPage]⟩
      ("\x7b\"messageCount\":\"2\"","",bothManifest)
      ("\x7b\"dependencies\":[\"70","",bothRecord) [bothPage.hash] manifestOf_both
    · decide
    · rfl
    · decide +kernel
    · decide
    · rfl
    · decide
    · decide
    · decide
    · decide

lemma rowHolds_captureRow (index : ℕ) {text : String} (h : text ∈ ["\x7b\x7d","[]"]) :
    RowHolds captureCrates index (utf8 text.toList) (captureRow index text) := by
  have hvalid : ∀ text ∈ ["\x7b\x7d","[]"],
      (Wire.Payload.canonicalize captureCrates (utf8 text.toList) = .ok (utf8 text.toList) ∧
        (utf8 text.toList).length < 2^63) := by decide
  exact ⟨rfl,(hvalid text h).1,.inl rfl,(hvalid text h).2⟩

lemma Keeps.add (left : PageDb) (count : Option ℤ) (messages : List MessageRow) :
    Keeps left { left with messageCount := count, messages := messages } :=
  ⟨rfl,fun _ _ => rfl,fun _ _ => rfl,fun _ _ => rfl⟩

lemma captureRows_eq {cr : Crates} {db s : PageDb} {edits : Option (List MessageEdit)}
    {v : Wire.UnitValue} (h : captureRows cr db edits = .ok (v,s)) :
    succeeds (capture cr db edits) = true ∧ (capture cr db edits).2 = s := by
  rw [capture, h]
  exact ⟨rfl,rfl⟩

lemma capture_some {cr : Crates} {db : PageDb} (h : db.pages = []) (edits : List MessageEdit) :
    capture cr db (some edits) = capture cr db none := by
  unfold capture captureRows regionsOf
  simp [h]

lemma firstMessage_captured : Earlier captureCrates [] firstMessage ∧
    ∀ k, k ≠ emptyManifest → k ≠ emptyRecord → Lacks firstMessage k := by
  have hc : Conversation captureCrates [] emptyConversation :=
    ⟨rfl,rfl,by norm_num,List.Pairwise.nil⟩
  have hnone : pageSegments captureCrates [] = [] := by rw [pageSegments, segments_nil]
  obtain ⟨v, s, h, hlacks⟩ := captureAll_succeeds hexDigests_capture hc (by simp [Encodable, hnone])
    manifested_samples.1 (by simp [hnone]) (by simp [hnone]) ⟨rfl,rfl⟩ ⟨rfl,rfl⟩
  obtain ⟨-, hs⟩ := captureRows_eq h
  have hfirst : firstMessage = { s with
      messageCount := some 1
      messages := [captureRow 0 "\x7b\x7d"] } := by
    rw [firstMessage, hs]
  refine ⟨?_,fun k hm hr => ?_⟩
  · rw [hfirst]
    exact .all hc h (.add _ _ _)
  · have := hlacks k ⟨rfl,rfl⟩ hm hr (by simp [hnone])
    rw [hfirst]
    exact ⟨this.object,this.proof⟩

lemma pages_firstMessage : firstMessage.pages = [] := by
  rw [(firstMessage_captured.1.captured hexDigests_capture).1.pages, pageSegments, segments_nil,
    boundaries]

lemma conversation_firstMessage : Conversation captureCrates [utf8 "\x7b\x7d".toList] firstMessage := by
  refine ⟨?_,rfl,by norm_num,?_⟩
  · exact ⟨_,_,rfl,rowHolds_captureRow _ (.head _),rfl⟩
  · rw [pages_firstMessage]
    exact List.Pairwise.nil

lemma encodable_of_short {page : List Body} (h : pageSegments captureCrates page = [page])
    (hlen : (manifestPage captureCrates page).byteLength < 100) :
    Encodable (pageSegments captureCrates page) := by
  rw [h]
  intro p hp
  obtain rfl := List.mem_singleton.mp hp
  change (manifestPage captureCrates p).byteLength ≤ javascriptMaxSafeInteger
  have : 100 ≤ javascriptMaxSafeInteger := by decide
  omega

lemma secondMessage_captured : Earlier captureCrates [utf8 "\x7b\x7d".toList] secondMessage ∧
    succeeds (capture captureCrates firstMessage none) = true ∧
    ∀ k, k ≠ emptyManifest → k ≠ emptyRecord → k ≠ firstManifest → k ≠ firstRecord →
      k ≠ firstPage.hash → Lacks secondMessage k := by
  have hlacks := firstMessage_captured.2
  obtain ⟨v, s, h, hnew⟩ := captureAll_succeeds hexDigests_capture conversation_firstMessage
    (encodable_of_short pages_first (by rw [page_samples.1]; decide)) manifested_samples.2.1
    (by rw [pages_first]; simp only [List.forall_mem_singleton]) (by
      simp only [pages_first, List.forall_mem_singleton, page_samples.1]
      exact ⟨hlacks _ (by decide) (by decide),by decide,by decide⟩)
    (hlacks _ (by decide) (by decide)) (hlacks _ (by decide) (by decide))
  obtain ⟨hok, hs⟩ := captureRows_eq h
  have hsecond : secondMessage = { s with
      messageCount := some 2
      messages := [captureRow 0 "\x7b\x7d",captureRow 1 "[]"] } := by
    rw [secondMessage, hs]
  refine ⟨?_,hok,fun k h1 h2 h3 h4 h5 => ?_⟩
  · rw [hsecond]
    exact .all conversation_firstMessage h (.add _ _ _)
  · have := hnew k (hlacks k h1 h2) h3 h4 (by
      simpa only [pages_first, List.forall_mem_singleton, page_samples.1] using h5)
    rw [hsecond]
    exact ⟨this.object,this.proof⟩

lemma pages_secondMessage : secondMessage.pages =
    boundaries captureCrates 0 (pageSegments captureCrates [utf8 "\x7b\x7d".toList]) :=
  (secondMessage_captured.1.captured hexDigests_capture).1.pages

lemma conversation_secondMessage :
    Conversation captureCrates [utf8 "\x7b\x7d".toList,utf8 "[]".toList] secondMessage := by
  refine ⟨?_,rfl,by norm_num,?_⟩
  · exact ⟨_,_,rfl,rowHolds_captureRow _ (.head _),_,_,rfl,
      rowHolds_captureRow _ (.tail _ (.head _)),rfl⟩
  · rw [pages_secondMessage]
    exact inOrder_pages _ _

lemma secondMessage_captures : succeeds (capture captureCrates secondMessage none) = true := by
  have hlacks : ∀ k, k = bothManifest ∨ k = bothRecord ∨ k = bothPage.hash →
      Lacks secondMessage k := by
    rintro k (rfl | rfl | rfl)
    all_goals
      exact secondMessage_captured.2.2 _ (by decide) (by decide) (by decide) (by decide)
        (by decide)
  obtain ⟨v, s, h, -⟩ := captureAll_succeeds hexDigests_capture conversation_secondMessage
    (encodable_of_short pages_both (by rw [page_samples.2.1]; decide)) manifested_samples.2.2
    (by rw [pages_both]; simp only [List.forall_mem_singleton]) (by
      simp only [pages_both, List.forall_mem_singleton, page_samples.2.1]
      exact ⟨hlacks _ (.inr (.inr rfl)),by decide,by decide⟩)
    (hlacks _ (.inl rfl)) (hlacks _ (.inr (.inl rfl)))
  exact (captureRows_eq h).1

theorem edited_capture_agrees_secondMessage :
    (capture captureCrates secondMessage (some [⟨1,0,1⟩])).1.toOption =
      (capture captureCrates secondMessage none).1.toOption ∧
    (capture captureCrates secondMessage (some [⟨1,0,1⟩])).2.pages =
      (capture captureCrates secondMessage none).2.pages ∧
    succeeds (capture captureCrates secondMessage (some [⟨1,0,1⟩])) = true ∧
    capture captureCrates secondMessage (some [⟨5,0,1⟩]) = (.error invalidRange,secondMessage) := by
  have hedited : Edited [utf8 "\x7b\x7d".toList] [⟨1,0,1⟩]
      [utf8 "\x7b\x7d".toList,utf8 "[]".toList] :=
    @Edited.cons _ [utf8 "\x7b\x7d".toList] [] [utf8 "[]".toList] [] _ [] (by norm_num) (.nil _)
  have hagrees := (edited_capture_agrees hexDigests_capture secondMessage_captured.1).1
    conversation_secondMessage hedited
  have hne : secondMessage.pages ≠ [] := by
    intro he
    rw [pages_secondMessage, pageSegments, segments, boundaries] at he
    cases he
  have hfits : ¬ Fits (2 : ℕ) [utf8 "\x7b\x7d".toList].length [⟨5,0,1⟩] := by simp [Fits]
  have hrefused := @edited_capture_agrees captureCrates _ [] _ hexDigests_capture
    secondMessage_captured.1 [⟨5,0,1⟩]
  have hsucceeds := secondMessage_captures
  rw [succeeds, ← hagrees.1] at hsucceeds
  exact ⟨hagrees.1,hagrees.2.1,hsucceeds,hrefused.2 2 rfl hne (by decide) hfits⟩

/-- With no page in the stored index the edits are not read. -/
theorem unfitting_edits_are_accepted :
    Earlier captureCrates [] firstMessage ∧ firstMessage.messageCount = some 1 ∧
    ¬ Fits 1 0 [⟨5,3,1⟩] ∧
    succeeds (capture captureCrates firstMessage (some [⟨5,3,1⟩])) = true := by
  refine ⟨firstMessage_captured.1,rfl,by simp [Fits],?_⟩
  rw [capture_some pages_firstMessage]
  exact secondMessage_captured.2.1

end RisuNest.Storage

import RisuNest.Transfer.Streams

/-! What the file-backed search writes down is its target, and it never reads out of range. -/
namespace RisuNest.Transfer.Stream
open Wire Recipe Checked

section
variable {σ : Type} {cr : Crates} {env : Outside σ} {fails : WireError → Prop}

/-- The errors that come from outside are among those allowed. -/
structure Allows (env : Outside σ) (fails : WireError → Prop) : Prop where
  check : ∀ s e, env.check s = .error e → fails e
  call : ∀ s, env.call s = none → fails ⟨"delta-io"⟩

lemma allows_true (env : Outside σ) : Allows env fun _ => True := ⟨fun _ _ _ => trivial,fun _ _ => trivial⟩

lemma Outside.Quiet.allows (h : env.Quiet) : Allows env fun _ => False where
  check := by
    intro s e he
    obtain ⟨t,ht⟩ := (h s).1
    rw [he] at ht
    cases ht
  call := by
    intro s hn
    obtain ⟨t,ht⟩ := (h s).2
    rw [hn] at ht
    cases ht

lemma ends_check (h : Allows env fails) : Ends fails (check env) fun _ => True := Ends.ask h.check

lemma ends_io (h : Allows env fails) : Ends fails (io env) fun _ => True := by
  refine Ends.ask fun s e he => ?_
  have hc := h.call s
  revert he hc
  cases env.call s with
  | none =>
    intro he hc
    rw [← Except.error.inj he]
    exact hc rfl
  | some t => exact fun he => nomatch he

lemma ends_read (h : Allows env fails) (source : Bytes) (position room : ℕ) :
    Ends fails (read env source position room) fun bytes =>
      ∃ k, bytes = (source.drop position).take (min room (k+1)) := by
  refine (ends_io h).bind fun _ _ => ?_
  refine Ends.bind (P := fun _ => True) (fun _ => trivial) fun k _ => Ends.pure ⟨k,rfl⟩

lemma ends_readExact (h : Allows env fails) {source : Bytes} {position count : ℕ}
    (hf : source.length < position + count → fails ⟨"delta-io"⟩) :
    Ends fails (readExact env source position count) fun bytes =>
      position + count ≤ source.length ∧ bytes = (source.drop position).take count := by
  refine (ends_io h).bind fun _ _ => Ends.ite (fun hle => Ends.pure ⟨hle,rfl⟩) fun hle => ?_
  exact Ends.fail (hf (Nat.lt_of_not_le hle))

lemma take_append_piece {source bytes : Bytes} {position : ℕ} (h : bytes <+: source.drop position) :
    source.take position ++ bytes = source.take (position + bytes.length) := by
  rw [List.take_add, ← List.prefix_iff_eq_take.mp h]

/-! ### Verifying and applying -/

/-- A file and what it was announced as. -/
def Is (cr : Crates) (source : Bytes) (base : Base) : Prop :=
  source.length = base.size ∧ hash cr source = base.hash

lemma ends_verify (h : Allows env fails) {source : Bytes} {expected : Base}
    (hf : ¬ Is cr source expected → fails ⟨"base-size-mismatch"⟩ ∧ fails ⟨"base-hash-mismatch"⟩) :
    Ends fails (verify cr env source expected) fun _ => Is cr source expected := by
  have hloop : Ends fails (loop (verifyRound env source expected) (source.length + 1) (0,[]))
      fun st => st.1 = source.length ∧ st.2 = source := by
    refine Ends.loop (fun st => st.1 ≤ source.length ∧ st.2 = source.take st.1)
      (fun st => source.length - st.1) ?_ ⟨Nat.zero_le _,rfl⟩ (by omega)
    rintro ⟨size,digest⟩ ⟨hle,hd⟩
    dsimp only at hle hd
    refine (ends_check h).bind fun _ _ => (ends_read h source size bufferSize).bind ?_
    rintro bytes ⟨k,hb⟩
    have hlen : bytes.length = min (min bufferSize (k+1)) (source.length - size) := by
      rw [hb, List.length_take, List.length_drop]
    have hbuf : 0 < bufferSize := by decide
    refine Ends.ite (fun hn => Ends.pure ?_) fun hn => Ends.ite (fun hlt => Ends.fail ?_) fun _ =>
      Ends.pure ?_
    · rw [hn, List.length_nil] at hlen
      have hsize : size = source.length := by omega
      exact ⟨hsize,by rw [hd, hsize, List.take_length]⟩
    · refine (hf fun hs => ?_).1
      have := hs.1
      dsimp only at hlt
      omega
    · have hpos : bytes.length ≠ 0 := fun hz => hn (List.length_eq_zero_iff.mp hz)
      dsimp only [Ends.Leaves]
      refine ⟨⟨by omega,?_⟩,by omega⟩
      rw [hd]
      exact take_append_piece (hb ▸ List.take_prefix _ _)
  refine (ends_io h).bind fun _ _ => hloop.bind ?_
  rintro ⟨size,digest⟩ ⟨hs,hd⟩
  dsimp only at hs hd ⊢
  subst hs hd
  refine Ends.ite (fun hn => Ends.fail (hf ?_).2) fun hn => Ends.pure ?_
  · intro his
    obtain hne | hne := hn
    · exact hne his.1
    · exact hne his.2
  · simp only [not_or, not_not] at hn
    exact hn

lemma ends_verifyAll (h : Allows env fails) {sources : List Bytes} {bases : List Base}
    (hs : List.Forall₂ (Is cr) sources bases) :
    Ends fails (verifyAll cr env sources bases) fun _ => True := by
  induction hs with
  | nil => exact Ends.pure trivial
  | cons hi _ ih => exact (ends_verify h fun hn => absurd hi hn).bind fun _ _ => ih

lemma ends_copy (h : Allows env fails) {source : Bytes} {offset length : ℕ}
    (hle : offset + length ≤ source.length) (output : Bytes) :
    Ends fails (loop (copyRound env source) (length + 1) (length,offset,output)) fun out =>
      out = output ++ (source.drop offset).take length := by
  refine Ends.loop (fun st => st.1 ≤ length ∧ st.2.1 = offset + (length - st.1) ∧
    st.2.2 = output ++ (source.drop offset).take (length - st.1)) (fun st => st.1) ?_
    ⟨Nat.le_refl _,by simp,by simp⟩ (Nat.lt_succ_self _)
  rintro ⟨left,place,out⟩ ⟨hl,hp,ho⟩
  dsimp only at hl hp ho
  refine Ends.ite (fun hz => Ends.pure ?_) fun hz => ?_
  · rw [ho, hz, Nat.sub_zero]
  · have hbuf : 0 < bufferSize := by decide
    have hread : source.length < place + min left bufferSize → fails ⟨"delta-io"⟩ := by
      intro hlt
      omega
    refine (ends_check h).bind fun _ _ => (ends_readExact h hread).bind ?_
    rintro bytes ⟨-,hb⟩
    refine (ends_io h).bind fun _ _ => (Ends.sub (Nat.min_le_left _ _)).bind fun rest hr => Ends.pure ?_
    subst hr
    dsimp only [Ends.Leaves]
    refine ⟨⟨by omega,by omega,?_⟩,by omega⟩
    have hcut : length - (left - min left bufferSize) = (length - left) + min left bufferSize := by
      omega
    rw [hcut, List.take_add, List.drop_drop, ← hp, ← hb, ho, List.append_assoc]

lemma ends_applyOp (h : Allows env fails) {sources : List Bytes} {op : DeltaOp}
    (hop : OpSound sources op) (output : Bytes) :
    Ends fails (applyOp env sources output op) fun out =>
      out = output ++ opOutput sources op := by
  refine (ends_check h).bind fun _ _ => ?_
  cases op with
  | insert bytes => exact (ends_io h).bind fun _ _ => Ends.pure rfl
  | copy base offset length =>
    obtain ⟨hb,hle,-⟩ := hop
    refine (Ends.nth hb).bind fun source hs => (ends_io h).bind fun _ _ => ?_
    have hsource : sources.getD base [] = source := by
      rw [List.getD_eq_getElem?_getD, hs, Option.getD_some]
    rw [opOutput, hsource]
    exact ends_copy h (hsource ▸ hle) output

/-- A recipe and the files it was made for. -/
structure Made (cr : Crates) (sources : List Bytes) (target : Bytes) (r : Recipe) : Prop where
  valid : r.validate = .ok ()
  bases : List.Forall₂ (Is cr) sources r.bases
  builds : Builds sources r.ops target
  hash : hash cr target = r.targetHash

/-- Applying such a recipe writes the target. -/
theorem ends_apply (h : Allows env fails) {sources : List Bytes} {target : Bytes} {r : Recipe}
    (hr : Made cr sources target r) :
    Ends fails (apply cr env r sources) fun output => output = target := by
  have hfold : Ends fails (r.ops.foldlM (applyOp env sources) []) fun output => output = target := by
    refine (Ends.foldlM (fun done output => output = done.flatMap (opOutput sources)) ?_ rfl).mono
      fun output ho => ho.trans hr.builds.output
    intro done op rest output hl ho
    have hop := hr.builds.sound op (hl ▸ List.mem_append_right _ List.mem_cons_self)
    refine (ends_applyOp h hop output).mono fun out he => ?_
    rw [he, ho, List.flatMap_append, List.flatMap_singleton]
  unfold apply
  rw [hr.valid]
  refine (Ends.attempt (fun _ _ => trivial) fun _ he => nomatch he).bind fun _ _ => ?_
  have hlen : require (sources.length = r.bases.length) (⟨"missing-base"⟩ : WireError) = .ok () :=
    require_eq_ok.mpr hr.bases.length_eq
  rw [hlen]
  refine (Ends.attempt (fun _ _ => trivial) fun _ he => nomatch he).bind fun _ _ => ?_
  refine (ends_verifyAll h hr.bases).bind fun _ _ => hfold.bind fun output ho => ?_
  subst ho
  have hhash : require (Wire.hash cr output = r.targetHash) (⟨"target-hash-mismatch"⟩ : WireError) =
      .ok () := require_eq_ok.mpr hr.hash
  rw [hhash]
  exact (Ends.attempt (fun _ _ => trivial) fun _ he => nomatch he).bind fun _ _ => Ends.pure rfl

/-! ### The index -/

lemma stride_spec (total : ℕ) : 4096 ∣ strideOf total ∧ 0 < strideOf total := by
  unfold strideOf
  refine ⟨Nat.dvd_mul_left _ _,Nat.mul_pos (Nat.div_pos ?_ (by decide)) (by decide)⟩
  have := Nat.le_max_right ((total + (maxAnchors - 1))/maxAnchors) 4096
  omega

/-- The pass over a base between two buffers: the next anchor is at most a block behind, and both
places are multiples of 4 KiB unless the base has ended. -/
structure Scan.Between (size : ℕ) (source : Bytes) (P : Anchor → Prop) (st : Scan) : Prop where
  inside : st.position ≤ size
  read : st.position ≤ source.length
  digest : st.digest = source.take st.position
  aligned : 4096 ∣ st.nextAnchor
  ahead : st.position < st.nextAnchor + blockSize
  buffer : bufferSize ∣ st.position ∨ st.position = size
  index : ∀ a ∈ st.index, P a

lemma ends_anchors {P : Anchor → Prop} {id size stride position n next : ℕ} {buffer : Bytes}
    {index : List Anchor} (hP : ∀ key offset, offset + blockSize ≤ size → P ⟨key,id,offset⟩)
    (hs : 4096 ∣ stride) (hpos : 0 < stride) (hin : position + n ≤ size)
    (hbuf : buffer.length = n) (hle : position ≤ next) (hd : 4096 ∣ next) (hi : ∀ a ∈ index, P a) :
    Ends fails (loop (σ := σ) (anchorRound id stride position n buffer) (n + 1) (next,index))
      fun st => 4096 ∣ st.1 ∧ position + n < st.1 + blockSize ∧ ∀ a ∈ st.2, P a := by
  refine Ends.loop (fun st => position ≤ st.1 ∧ 4096 ∣ st.1 ∧ ∀ a ∈ st.2, P a)
    (fun st => position + n - st.1) ?_ ⟨hle,hd,hi⟩ ?_
  · rintro ⟨next,index⟩ ⟨hle,hd,hi⟩
    dsimp only at hle hd hi
    refine Ends.ite (fun hfit => ?_) fun hfit => Ends.pure ?_
    · dsimp only at hfit
      have hblock : 0 < blockSize := by decide
      refine (Ends.sub hle).bind fun start hstart => ?_
      refine (Ends.slice (Nat.le_add_right _ _) (by omega)).bind fun bytes _ => Ends.pure ?_
      dsimp only [Ends.Leaves]
      refine ⟨⟨by omega,(Nat.dvd_add_right hd).mpr hs,?_⟩,by omega⟩
      intro a ha
      obtain ha | ha := List.mem_append.mp ha
      · exact hi a ha
      · rw [List.mem_singleton.mp ha]
        exact hP _ _ (by omega)
    · dsimp only at hfit ⊢
      exact ⟨hd,by omega,hi⟩
  · dsimp only
    omega

lemma Scan.Between.position_le {size : ℕ} {source : Bytes} {P : Anchor → Prop} {st : Scan}
    (h : st.Between size source P) (hlt : st.position < size) : st.position ≤ st.nextAnchor := by
  obtain hb | he := h.buffer
  · obtain ⟨k,hk⟩ := h.aligned
    obtain ⟨l,hl⟩ := hb
    have hahead := h.ahead
    rw [hk, hl] at hahead
    rw [hk, hl]
    unfold bufferSize blockSize at *
    omega
  · omega

lemma ends_scanRound (h : Allows env fun _ => True) {P : Anchor → Prop} {id size stride : ℕ}
    {source : Bytes} (hP : ∀ key offset, offset + blockSize ≤ size → P ⟨key,id,offset⟩)
    (hs : 4096 ∣ stride) (hpos : 0 < stride) {st : Scan} (hst : st.Between size source P) :
    Ends (fun _ => True) (scanRound env id stride size source st)
      (Ends.Leaves (Scan.Between size source P) (fun st => size - st.position) st fun st =>
        st.Between size source P ∧ st.position = size) := by
  refine Ends.ite (fun hlt => ?_) fun hlt => Ends.pure ⟨hst,?_⟩
  · refine (ends_check h).bind fun _ _ => (Ends.sub (Nat.le_of_lt hlt)).bind fun left hleft => ?_
    refine (ends_readExact h fun _ => trivial).bind ?_
    rintro buffer ⟨hread,hb⟩
    have hbuf : 0 < bufferSize := by decide
    have hlen : buffer.length = min left bufferSize := by
      rw [hb, List.length_take, List.length_drop]
      omega
    refine (ends_anchors hP hs hpos (by omega) hlen (hst.position_le hlt) hst.aligned
      hst.index).bind ?_
    rintro ⟨next,index⟩ ⟨hd,hahead,hi⟩
    refine Ends.pure ⟨⟨?_,hread,?_,hd,hahead,?_,hi⟩,?_⟩
    · dsimp only
      omega
    · dsimp only
      rw [hst.digest, List.take_add, ← hb]
    · dsimp only
      obtain hm | hm := Nat.le_total left bufferSize
      · right
        rw [Nat.min_eq_left hm]
        omega
      · left
        rw [Nat.min_eq_right hm]
        obtain hb | he := hst.buffer
        · exact (Nat.dvd_add_right hb).mpr (Nat.dvd_refl _)
        · omega
    · dsimp only
      omega
  · have := hst.inside
    omega

lemma ends_scan (h : Allows env fun _ => True) {P : Anchor → Prop} {id stride : ℕ} {source : Bytes}
    {base : Base} {index : List Anchor}
    (hP : ∀ key offset, offset + blockSize ≤ base.size → P ⟨key,id,offset⟩)
    (hs : 4096 ∣ stride) (hpos : 0 < stride) (hi : ∀ a ∈ index, P a) :
    Ends (fun _ => True) (scan cr env stride index ((source,base),id)) fun index =>
      Is cr source base ∧ ∀ a ∈ index, P a := by
  refine (Ends.attempt (fun _ _ => trivial) fun _ _ => trivial).bind fun _ _ => ?_
  refine (ends_io h).bind fun _ _ => ?_
  have hstart : Scan.Between base.size source P ⟨0,0,index,[]⟩ :=
    ⟨Nat.zero_le _,Nat.zero_le _,rfl,Nat.dvd_zero _,Nat.succ_pos 63,.inl (Nat.dvd_zero _),hi⟩
  have hloop : Ends (fun _ => True) (loop (scanRound env id stride base.size source) (base.size + 1)
      ⟨0,0,index,[]⟩) fun st => st.Between base.size source P ∧ st.position = base.size :=
    Ends.loop (Scan.Between base.size source P) (fun st => base.size - st.position)
      (fun st hst => ends_scanRound h hP hs hpos hst) hstart (Nat.lt_succ_of_le (Nat.sub_le _ _))
  refine hloop.bind ?_
  rintro st ⟨hst,hend⟩
  refine (ends_read h source base.size 1).bind ?_
  rintro extra ⟨k,he⟩
  refine Ends.ite (fun _ => Ends.fail trivial) fun hn => Ends.pure ?_
  simp only [not_or, not_not] at hn
  obtain ⟨hextra,hhash⟩ := hn
  have hlen : source.length = base.size := by
    have hl := congrArg List.length he
    rw [hextra, List.length_take, List.length_drop, List.length_nil] at hl
    have := hst.read
    omega
  refine ⟨⟨hlen,?_⟩,hst.index⟩
  have hd := hst.digest
  rw [hend, ← hlen, List.take_length] at hd
  rw [← hd]
  exact hhash

/-! ### Windows -/

/-- A window over a whole file holds a piece of it, or nothing yet. -/
structure Window.Valid (w : Window) : Prop where
  size : w.size = w.source.length
  small : w.size < u64Max
  piece : w.bytes = [] ∧ w.start = u64Max ∨
    w.bytes <+: w.source.drop w.start ∧ w.start + w.bytes.length ≤ w.size

lemma Window.valid_fresh {source : Bytes} (h : source.length < u64Max) :
    (Window.fresh source source.length).Valid := ⟨rfl,h,.inl ⟨rfl,rfl⟩⟩

lemma drop_piece {bytes rest : Bytes} (h : bytes <+: rest) {n : ℕ} (hn : n ≤ bytes.length) :
    bytes.drop n <+: rest.drop n := by
  obtain ⟨t,rfl⟩ := h
  exact ⟨t,(List.drop_append_of_le_length hn).symm⟩

lemma ends_refill (h : Allows env fun _ => True) {w : Window} (hw : w.Valid) {offset minimum : ℕ}
    (hmin : minimum ≤ bufferSize) (hle : offset + minimum ≤ w.size) :
    Ends (fun _ => True) (w.refill env offset minimum) fun w' => w'.Valid ∧ w'.source = w.source ∧
      w'.start ≤ offset ∧ offset + minimum ≤ w'.start + w'.bytes.length := by
  refine Ends.ite (fun _ => ?_) fun hkeep => Ends.pure ⟨hw,rfl,?_⟩
  · refine (Ends.sub (by omega)).bind fun left hleft => (ends_io h).bind fun _ _ => ?_
    refine (ends_readExact h fun _ => trivial).bind ?_
    rintro bytes ⟨hread,hb⟩
    have hlen : bytes.length = min left bufferSize := by
      rw [hb, List.length_take, List.length_drop]
      omega
    have hsize := hw.size
    refine Ends.pure ⟨⟨hsize,hw.small,.inr ⟨hb ▸ List.take_prefix _ _,?_⟩⟩,rfl,Nat.le_refl _,?_⟩
    · dsimp only
      omega
    · dsimp only
      omega
  · simp only [not_or, Nat.not_lt] at hkeep
    exact ⟨hkeep.1,Nat.le_trans hkeep.2 (Nat.min_le_left _ _)⟩

lemma ends_view (h : Allows env fun _ => True) {w : Window} (hw : w.Valid) {offset minimum : ℕ}
    (hmin : minimum ≤ bufferSize) :
    Ends (fun _ => True) (w.view env offset minimum) fun r => r.2.Valid ∧ r.2.source = w.source ∧
      minimum ≤ r.1.length ∧ r.1 <+: w.source.drop offset := by
  refine Ends.ite (fun _ => Ends.fail trivial) fun hlt => ?_
  refine (Ends.sub (Nat.le_of_not_lt hlt)).bind fun left hleft => ?_
  refine Ends.ite (fun _ => Ends.fail trivial) fun hmore => ?_
  refine (ends_refill h hw hmin (by omega)).bind ?_
  rintro w' ⟨hw',hsource,hstart,hend⟩
  refine (Ends.sub hstart).bind fun start hs => ?_
  refine (Ends.slice (by omega) (Nat.le_refl _)).bind fun bytes hb => Ends.pure ⟨hw',hsource,?_,?_⟩
  · dsimp only
    rw [hb, List.length_take, List.length_drop]
    omega
  · dsimp only
    obtain ⟨hn,hmax⟩ | ⟨hp,-⟩ := hw'.piece
    · have := hw'.small
      have := hw'.size
      rw [hb, hn]
      simp
    · have hplace : w'.start + start = offset := by omega
      rw [hb]
      refine (List.take_prefix _ _).trans ?_
      rw [← hplace, ← List.drop_drop, ← hsource]
      exact drop_piece hp (by omega)

lemma length_of_piece {source bytes : Bytes} {offset : ℕ} (h : bytes <+: source.drop offset) :
    bytes.length ≤ source.length - offset := by
  have := h.length_le
  rwa [List.length_drop] at this

/-! ### Candidates -/

/-- A window over a given file. -/
def Over (source : Bytes) (w : Window) : Prop := w.Valid ∧ w.source = source

/-- Two files agree over a length from two places on. -/
def Agree (source target : Bytes) (offset position length : ℕ) : Prop :=
  (source.drop offset).take length = (target.drop position).take length

lemma agree_zero (source target : Bytes) (offset position : ℕ) :
    Agree source target offset position 0 := by
  unfold Agree
  rw [List.take_zero, List.take_zero]

lemma Agree.extend {source target a b : Bytes} {offset position length n : ℕ}
    (h : Agree source target offset position length)
    (ha : a <+: source.drop (offset + length)) (hb : b <+: target.drop (position + length))
    (hna : n ≤ a.length) (hnb : n ≤ b.length) :
    Agree source target offset position (length + commonLength (a.take n) (b.take n)) := by
  obtain ⟨hca,hcb,hc⟩ := commonLength_spec (a.take n) (b.take n)
  have key {x rest : Bytes} (hx : x <+: rest) (hn : n ≤ x.length)
      (hle : commonLength (a.take n) (b.take n) ≤ (x.take n).length) :
      rest.take (commonLength (a.take n) (b.take n)) =
        (x.take n).take (commonLength (a.take n) (b.take n)) := by
    obtain ⟨t,rfl⟩ := hx
    rw [List.length_take] at hle
    rw [List.take_take, Nat.min_eq_left (by omega), List.take_append_of_le_length (by omega)]
  unfold Agree at h ⊢
  rw [List.take_add, List.take_add, List.drop_drop, List.drop_drop, h, key ha hna hca,
    key hb hnb hcb, hc]

lemma ends_extend (h : Allows env fun _ => True) {source target : Bytes} {w t : Window}
    (hw : Over source w) (ht : Over target t) {offset position limit : ℕ} :
    Ends (fun _ => True) (loop (extendRound env offset position limit) (limit + 1) (0,w,t))
      fun r => r.1 ≤ limit ∧ Agree source target offset position r.1 ∧ Over source r.2.1 ∧
        Over target r.2.2 := by
  refine Ends.loop (fun r => r.1 ≤ limit ∧ Agree source target offset position r.1 ∧
    Over source r.2.1 ∧ Over target r.2.2) (fun r => limit - r.1) ?_
    ⟨Nat.zero_le _,agree_zero ..,hw,ht⟩ (Nat.lt_succ_of_le (Nat.sub_le _ _))
  rintro ⟨length,w,t⟩ ⟨hle,hagree,hw,ht⟩
  dsimp only at hle hagree hw ht
  refine Ends.ite (fun hlt => ?_) fun _ => Ends.pure ⟨hle,hagree,hw,ht⟩
  have hone : 1 ≤ bufferSize := by decide
  refine (ends_check h).bind fun _ _ => (ends_view h hw.1 hone).bind ?_
  rintro ⟨a,w'⟩ ⟨hw',hsource,hla,ha⟩
  refine (ends_view h ht.1 hone).bind ?_
  rintro ⟨b,t'⟩ ⟨ht',htarget,hlb,hb⟩
  dsimp only at *
  rw [hw.2] at hsource ha
  rw [ht.2] at htarget hb
  refine (Ends.sub hle).bind fun left hleft => ?_
  have hna : min (min a.length b.length) left ≤ a.length :=
    Nat.le_trans (Nat.min_le_left _ _) (Nat.min_le_left _ _)
  have hnb : min (min a.length b.length) left ≤ b.length :=
    Nat.le_trans (Nat.min_le_left _ _) (Nat.min_le_right _ _)
  refine (Ends.slice (Nat.zero_le _) hna).bind fun a' ha' => ?_
  refine (Ends.slice (Nat.zero_le _) hnb).bind fun b' hb' => ?_
  rw [List.drop_zero, Nat.sub_zero] at ha' hb'
  subst ha' hb'
  have hagree := hagree.extend ha hb hna hnb
  have hcommon := (commonLength_spec (a.take (min (min a.length b.length) left))
    (b.take (min (min a.length b.length) left))).1
  rw [List.length_take] at hcommon
  refine Ends.ite (fun hne => Ends.pure ?_) fun heq => Ends.pure ?_
  · dsimp only [Ends.Leaves]
    exact ⟨by omega,hagree,⟨hw',hsource⟩,⟨ht',htarget⟩⟩
  · dsimp only [Ends.Leaves]
    exact ⟨⟨by omega,hagree,⟨hw',hsource⟩,⟨ht',htarget⟩⟩,by omega⟩

/-- The windows over all bases. -/
def OverAll (sources : List Bytes) (windows : List Window) : Prop :=
  List.Forall₂ Over sources windows

lemma OverAll.set {sources : List Bytes} {windows : List Window} (h : OverAll sources windows)
    {i : ℕ} {source : Bytes} (hi : sources[i]? = some source) {w : Window} (hw : Over source w) :
    OverAll sources (windows.set i w) := by
  induction h generalizing i with
  | nil => cases hi
  | @cons s v sources windows hv hrest ih =>
    cases i with
    | zero =>
      rw [List.getElem?_cons_zero, Option.some.injEq] at hi
      exact .cons (hi ▸ hw) hrest
    | succ i => exact .cons hv (ih hi)

lemma OverAll.get {sources : List Bytes} {windows : List Window} (h : OverAll sources windows)
    {i : ℕ} {w : Window} (hi : windows[i]? = some w) :
    ∃ source, sources[i]? = some source ∧ Over source w := by
  induction h generalizing i with
  | nil => cases hi
  | @cons s v sources windows hv _ ih =>
    cases i with
    | zero =>
      rw [List.getElem?_cons_zero, Option.some.injEq] at hi
      exact ⟨s,rfl,hi ▸ hv⟩
    | succ i => exact ih hi

/-- What a trial keeps while it goes through the candidates. -/
structure Trial.Keeps (sources : List Bytes) (target : Bytes) (position : ℕ) (t : Trial) : Prop where
  counts : t.counts.length = maxBases
  best : t.best.length = 0 ∨ Matches sources target position t.best
  windows : OverAll sources t.windows
  target : Over target t.target

lemma ends_tryAnchor (h : Allows env fun _ => True) {sources : List Bytes} {target : Bytes}
    {position : ℕ} (hfew : sources.length ≤ maxBases) (hpos : position ≤ target.length)
    {a : Anchor} (ha : Inside sources a) {t : Trial} (ht : t.Keeps sources target position) :
    Ends (fun _ => True) (tryAnchor env target.length position t a)
      (Trial.Keeps sources target position) := by
  have hbase : a.base < t.counts.length := by
    rw [ht.counts]
    exact Nat.lt_of_lt_of_le ha.1 hfew
  refine (Ends.nth hbase).bind fun count _ => Ends.ite (fun _ => Ends.pure ht) fun _ => ?_
  have hwindow : a.base < t.windows.length := ht.windows.length_eq ▸ ha.1
  refine (Ends.nth hwindow).bind fun w hw => ?_
  obtain ⟨source,hs,hover⟩ := ht.windows.get hw
  have hsource : sources.getD a.base [] = source := by
    rw [List.getD_eq_getElem?_getD, hs, Option.getD_some]
  have hsize : w.size = source.length := by rw [hover.1.size, hover.2]
  have hin := ha.2
  rw [hsource] at hin
  refine (Ends.sub (by omega)).bind fun inBase hb => (Ends.sub hpos).bind fun inTarget hi => ?_
  refine (ends_extend h hover ht.target).bind ?_
  rintro ⟨length,w',t'⟩ ⟨hlen,hagree,hw',ht'⟩
  dsimp only at hlen hagree hw' ht'
  refine Ends.pure ⟨?_,?_,ht.windows.set hs hw',ht'⟩
  · dsimp only
    rw [List.length_set, ht.counts]
  · dsimp only
    split_ifs
    · right
      refine ⟨ha.1,?_,?_,?_⟩
      · dsimp only
        rw [hsource]
        omega
      · dsimp only
        omega
      · dsimp only
        rw [hsource]
        exact hagree
    · exact ht.best

/-! ### The main loop -/

/-- The operations and the literal bytes together write the target up to a position. -/
structure Search.Covers (sources : List Bytes) (target : Bytes) (s : Search) : Prop where
  builds : ∃ out, Builds sources s.ops out ∧ out ++ s.literal = target.take s.position
  inside : s.position ≤ target.length
  windows : OverAll sources s.windows
  target : Over target s.target

lemma builds_flush {sources : List Bytes} {ops : List DeltaOp} {out : Bytes} (literal : Bytes)
    (h : Builds sources ops out) : Builds sources (flush ops literal) (out ++ literal) := by
  unfold flush
  split_ifs with hn
  · exact h.push hn
  · rw [ne_eq, not_not] at hn
    rw [hn, List.append_nil]
    exact h

lemma ends_pieces {sources : List Bytes} {target : Bytes} {position : ℕ} {best : Match}
    (hm : Matches sources target position best) {ops : List DeltaOp}
    (hb : Builds sources ops (target.take position)) :
    Ends (σ := σ) (fun _ => True) (loop (pieceRound best) (best.length + 1) (0,ops)) fun ops =>
      Builds sources ops (target.take (position + best.length)) := by
  refine Ends.loop (fun st => st.1 ≤ best.length ∧
    Builds sources st.2 (target.take (position + st.1))) (fun st => best.length - st.1) ?_
    ⟨Nat.zero_le _,hb⟩ (Nat.lt_succ_of_le (Nat.sub_le _ _))
  rintro ⟨copied,ops⟩ ⟨hle,hb⟩
  dsimp only at hle hb
  refine Ends.ite (fun hlt => ?_) fun hge => Ends.pure ?_
  · refine (Ends.sub hle).bind fun left hleft => Ends.pure ?_
    dsimp only [Ends.Leaves]
    dsimp only at hlt
    have hbase := hm.inBase
    have hin := hm.inTarget
    have hpiece : Matches sources target (position + copied)
        ⟨best.base,best.offset + copied,min left 4294967295⟩ := by
      refine ⟨hm.base,?_,?_,?_⟩
      · dsimp only
        omega
      · dsimp only
        omega
      · have hs := congrArg (fun l => (l.drop copied).take (min left 4294967295)) hm.same
        dsimp only at hs ⊢
        rw [List.drop_take, List.drop_take, List.take_take, List.take_take,
          Nat.min_eq_left (by omega), List.drop_drop, List.drop_drop] at hs
        exact hs
    refine ⟨⟨by omega,?_⟩,by omega⟩
    rw [← Nat.add_assoc]
    exact hb.copy hpiece (by dsimp only; omega)
  · dsimp only at hge
    have heq : copied = best.length := by omega
    rw [← heq]
    exact hb

lemma ends_takeMatch {sources : List Bytes} {target : Bytes} {s : Search}
    (hs : s.Covers sources target) {best : Match} (hm : Matches sources target s.position best)
    (hpos : 0 < best.length) :
    Ends (σ := σ) (fun _ => True) (takeMatch best s) fun s' =>
      s'.Covers sources target ∧ s.position < s'.position := by
  obtain ⟨out,hb,ho⟩ := hs.builds
  have hflush := builds_flush s.literal hb
  rw [ho] at hflush
  refine (ends_pieces hm hflush).bind fun ops hops => Ends.pure ⟨⟨?_,hm.inTarget,hs.windows,hs.target⟩,?_⟩
  · exact ⟨_,hops,List.append_nil _⟩
  · exact Nat.lt_add_of_pos_right hpos

lemma ends_rollOn (h : Allows env fun _ => True) {target : Bytes} {t : Window} (ht : Over target t)
    (size : ℕ) (key : UInt64) (first : UInt8) (position : ℕ) :
    Ends (fun _ => True) (rollOn env size key first position t) fun r => Over target r.2 := by
  refine Ends.ite (fun _ => ?_) fun _ => Ends.pure ht
  refine (ends_view h ht.1 (by decide)).bind ?_
  rintro ⟨bytes,t'⟩ ⟨ht',hsource,hlen,-⟩
  refine (Ends.nth (i := 0) hlen).bind fun next _ => Ends.pure ?_
  exact ⟨ht',hsource.trans ht.2⟩

lemma ends_takeByte (h : Allows env fun _ => True) {sources : List Bytes} {target : Bytes}
    {s : Search} (hs : s.Covers sources target) (hlt : s.position < target.length) (size : ℕ)
    (key : UInt64) :
    Ends (fun _ => True) (takeByte env size key s) fun s' =>
      s'.Covers sources target ∧ s.position < s'.position := by
  refine (ends_view h hs.target.1 (by decide)).bind ?_
  rintro ⟨bytes,t⟩ ⟨ht,hsource,hlen,hpiece⟩
  dsimp only at hsource hlen hpiece
  rw [hs.target.2] at hsource hpiece
  refine (Ends.nth (i := 0) hlen).bind fun first hfirst => ?_
  refine (ends_rollOn h ⟨ht,hsource⟩ size key first s.position).bind ?_
  rintro ⟨rolling,t'⟩ ht'
  refine Ends.pure ⟨⟨?_,hlt,hs.windows,ht'⟩,Nat.lt_succ_self _⟩
  obtain ⟨out,hb,ho⟩ := hs.builds
  refine ⟨out,hb,?_⟩
  obtain ⟨rest,hrest⟩ := hpiece
  have happ : (bytes ++ rest)[0]? = bytes[0]? := List.getElem?_append_left hlen
  have hget : target[s.position]? = some first := by
    rw [← happ, hrest, List.getElem?_drop, Nat.add_zero] at hfirst
    exact hfirst
  rw [← List.append_assoc, ho, List.take_add_one, hget]
  rfl

lemma ends_keyAt (h : Allows env fun _ => True) {target : Bytes} {s : Search}
    (ht : Over target s.target) :
    Ends (fun _ => True) (keyAt env s) fun r => Over target r.2 := by
  unfold keyAt
  cases s.rolling with
  | some key => exact Ends.pure ht
  | none =>
    refine (ends_view h ht.1 (by decide)).bind ?_
    rintro ⟨bytes,t⟩ ⟨ht',hsource,hlen,-⟩
    refine (Ends.slice (Nat.zero_le _) hlen).bind fun _ _ => Ends.pure ?_
    exact ⟨ht',hsource.trans ht.2⟩

lemma ends_searchRound (h : Allows env fun _ => True) {sources : List Bytes} {target : Bytes}
    (hfew : sources.length ≤ maxBases) {anchors : List Anchor}
    (ha : ∀ a ∈ anchors, Inside sources a) {s : Search} (hs : s.Covers sources target) :
    Ends (fun _ => True) (searchRound env (indexOf anchors) target.length s)
      (Ends.Leaves (Search.Covers sources target) (fun s => target.length - s.position) s fun s =>
        s.Covers sources target ∧ target.length < s.position + blockSize) := by
  refine Ends.ite (fun hfit => ?_) fun hend => Ends.pure ⟨hs,Nat.lt_of_not_le hend⟩
  have hblock : 0 < blockSize := by decide
  have hcheck : Ends (fun _ => True) (checkAt env s.position) fun _ => True :=
    Ends.ite (fun _ => ends_check h) fun _ => Ends.pure trivial
  refine hcheck.bind fun _ _ => (ends_keyAt h hs.target).bind ?_
  rintro ⟨key,t⟩ ht
  have hkeeps : Trial.Keeps sources target s.position
      ⟨List.replicate maxBases 0,⟨0,0,0⟩,s.windows,t⟩ :=
    ⟨List.length_replicate ..,.inl rfl,hs.windows,ht⟩
  refine (Ends.foldlM (fun _ => Trial.Keeps sources target s.position) ?_ hkeeps).bind ?_
  · intro done a rest t hl ht
    have hmem : a ∈ candidates (indexOf anchors) key :=
      hl ▸ List.mem_append_right _ List.mem_cons_self
    exact ends_tryAnchor h hfew hs.inside (ha a (mem_of_mem_candidates hmem)) ht
  intro t ht
  have hs' : Search.Covers sources target { s with windows := t.windows, target := t.target } :=
    ⟨hs.builds,hs.inside,ht.windows,ht.target⟩
  have hstep : Ends (fun _ => True)
      (takeBest env target.length key t.best { s with windows := t.windows, target := t.target })
      fun s' => s'.Covers sources target ∧ s.position < s'.position := by
    refine Ends.ite (fun hbest => ?_) fun _ => ends_takeByte h hs' (by dsimp only; omega) _ _
    obtain hz | hm := ht.best
    · omega
    · exact ends_takeMatch hs' hm (by omega)
  refine hstep.bind ?_
  rintro s' ⟨hc,hlt⟩
  refine Ends.ite (fun _ => Ends.fail trivial) fun _ => Ends.pure ?_
  have := hc.inside
  dsimp only [Ends.Leaves]
  exact ⟨hc,by omega⟩

lemma ends_tail (h : Allows env fun _ => True) {sources : List Bytes} {target : Bytes} {s : Search}
    (hs : s.Covers sources target) (hend : target.length < s.position + blockSize) :
    Ends (fun _ => True) (tail env target.length s) fun literal =>
      Builds sources (flush s.ops literal) target := by
  obtain ⟨out,hb,ho⟩ := hs.builds
  refine Ends.ite (fun hlt => ?_) fun hge => Ends.pure ?_
  · refine (Ends.sub hs.inside).bind fun left hleft => ?_
    have hsmall : left ≤ bufferSize := by
      have : blockSize ≤ bufferSize := by decide
      omega
    refine (ends_view h hs.target.1 hsmall).bind ?_
    rintro ⟨bytes,t⟩ ⟨-,-,hlen,hpiece⟩
    dsimp only at hlen hpiece
    rw [hs.target.2] at hpiece
    refine Ends.pure ?_
    have hle := length_of_piece hpiece
    have hflush := builds_flush (s.literal ++ bytes) hb
    rw [← List.append_assoc, ho, take_append_piece hpiece] at hflush
    have hall : s.position + bytes.length = target.length := by omega
    rwa [hall, List.take_length] at hflush
  · have hflush := builds_flush s.literal hb
    have hall : s.position = target.length := by
      have := hs.inside
      omega
    rwa [ho, hall, List.take_length] at hflush

/-- The bases gone through are what they were announced as, and the anchors lie inside them. -/
structure Scanned (cr : Crates) (identities : List Base) (done : List ((Bytes × Base) × ℕ))
    (anchors : List Anchor) : Prop where
  verified : ∀ e ∈ done, Is cr e.1.1 e.1.2
  anchors : ∀ a ∈ anchors, ∃ base, identities[a.base]? = some base ∧
    a.offset + blockSize ≤ base.size

lemma ends_scanAll (h : Allows env fun _ => True) (sources : List Bytes) (identities : List Base)
    {stride : ℕ} (hs : 4096 ∣ stride) (hpos : 0 < stride) :
    Ends (fun _ => True) ((sources.zip identities).zipIdx.foldlM (scan cr env stride) [])
      (Scanned cr identities (sources.zip identities).zipIdx) := by
  refine Ends.foldlM (Scanned cr identities) ?_ ⟨List.forall_mem_nil _,List.forall_mem_nil _⟩
  rintro done ⟨⟨source,base⟩,id⟩ rest anchors hl hdone
  have hmem : ((source,base),id) ∈ (sources.zip identities).zipIdx :=
    hl ▸ List.mem_append_right _ List.mem_cons_self
  have hbase : identities[id]? = some base :=
    (List.getElem?_zip_eq_some.mp (List.mem_zipIdx_iff_getElem?.mp hmem)).2
  refine (ends_scan h (fun key offset hle => ⟨base,hbase,hle⟩) hs hpos hdone.anchors).mono ?_
  rintro anchors ⟨his,ha⟩
  refine ⟨?_,ha⟩
  intro e he
  obtain he | he := List.mem_append.mp he
  · exact hdone.verified e he
  · rw [List.mem_singleton.mp he]
    exact his

lemma Scanned.bases {sources : List Bytes} {identities : List Base} {anchors : List Anchor}
    (h : Scanned cr identities (sources.zip identities).zipIdx anchors)
    (hlen : sources.length = identities.length) : List.Forall₂ (Is cr) sources identities := by
  rw [List.forall₂_iff_zip]
  refine ⟨hlen,fun {source base} hmem => ?_⟩
  obtain ⟨i,hi⟩ := List.getElem?_of_mem hmem
  exact h.verified ((source,base),i) (List.mem_zipIdx_iff_getElem?.mpr hi)

lemma inside_of_scanned {sources : List Bytes} {identities : List Base}
    (h : List.Forall₂ (Is cr) sources identities) {a : Anchor} {base : Base}
    (hb : identities[a.base]? = some base) (hle : a.offset + blockSize ≤ base.size) :
    Inside sources a := by
  obtain ⟨hlt,hget⟩ := List.getElem?_eq_some_iff.mp hb
  have hlt' : a.base < sources.length := h.length_eq ▸ hlt
  have his := h.get hlt' hlt
  refine ⟨hlt',?_⟩
  rw [List.getD_eq_getElem?_getD, List.getElem?_eq_getElem hlt', Option.getD_some]
  simp only [List.get_eq_getElem] at his
  rw [his.1, hget]
  exact hle

lemma overAll_fresh {sources : List Bytes} {identities : List Base}
    (h : List.Forall₂ (Is cr) sources identities) (hsmall : ∀ base ∈ identities, base.size < u64Max) :
    OverAll sources
      ((sources.zip identities).map fun (source,base) => Window.fresh source base.size) := by
  induction h with
  | nil => exact .nil
  | @cons source base _ _ his _ ih =>
    obtain ⟨hb,hrest⟩ := List.forall_mem_cons.mp hsmall
    refine .cons ⟨?_,rfl⟩ (ih hrest)
    change (Window.fresh source base.size).Valid
    rw [← his.1] at hb ⊢
    exact Window.valid_fresh hb

lemma small_of_le {n : ℕ} (h : n ≤ maxFileBytes) : n < u64Max :=
  Nat.lt_of_le_of_lt h (by decide)

lemma valid_of_encode {r : Recipe} {u : Unit}
    (h : (encode r).map (fun _ => ()) = .ok u) : r.validate = .ok () := by
  cases he : encode r with
  | error e =>
    rw [he] at h
    cases h
  | ok bytes =>
    obtain ⟨_,hv,-⟩ := bind_eq_ok.mp he
    exact hv

/-- Making a recipe from files ends with one that was made for them. -/
theorem ends_create (h : Allows env fun _ => True) (sources : List Bytes) (identities : List Base)
    (target : Bytes) (identity : Base) :
    Ends (fun _ => True) (create cr env sources identities target identity)
      (Made cr sources target) := by
  refine (Ends.attempt (Q := fun _ => sources.length = identities.length ∧
    identities.length ≤ maxBases ∧ (identities.map Base.size).sum ≤ maxFileBytes ∧
    identity.size ≤ maxFileBytes) (fun _ hr => require_eq_ok.mp hr) fun _ _ => trivial).bind ?_
  rintro _ ⟨hlen,hfew,hsum,hsize⟩
  obtain ⟨hdvd,hpos⟩ := stride_spec (identities.map Base.size).sum
  refine (ends_scanAll h sources identities hdvd hpos).bind fun anchors hscanned => ?_
  have hbases := hscanned.bases hlen
  have hanchors : ∀ a ∈ anchors, Inside sources a := by
    intro a ha
    obtain ⟨base,hb,hle⟩ := hscanned.anchors a ha
    exact inside_of_scanned hbases hb hle
  have hsmall : ∀ base ∈ identities, base.size < u64Max := fun base hb =>
    small_of_le (Nat.le_trans (List.single_le_sum (fun _ _ => Nat.zero_le _) _
      (List.mem_map_of_mem hb)) hsum)
  refine (ends_verify h fun _ => ⟨trivial,trivial⟩).bind ?_
  rintro _ ⟨htlen,hthash⟩
  rw [← htlen] at hsize ⊢
  have hstart : Search.Covers sources target ⟨0,[],[],0,none,
      (sources.zip identities).map fun (source,base) => Window.fresh source base.size,
      Window.fresh target target.length⟩ :=
    ⟨⟨[],Builds.nil sources,rfl⟩,Nat.zero_le _,overAll_fresh hbases hsmall,
      Window.valid_fresh (small_of_le hsize),rfl⟩
  have hloop : Ends (fun _ => True) (loop (searchRound env (indexOf anchors) target.length)
      (target.length + 1) _) fun s =>
        s.Covers sources target ∧ target.length < s.position + blockSize :=
    Ends.loop (Search.Covers sources target) (fun s => target.length - s.position)
      (fun s hs => ends_searchRound h (hlen ▸ hfew) hanchors hs) hstart
      (Nat.lt_succ_of_le (Nat.sub_le _ _))
  refine hloop.bind ?_
  rintro s ⟨hs,hend⟩
  refine (ends_tail h hs hend).bind fun literal hbuilds => ?_
  refine (Ends.attempt (Q := fun _ => Recipe.validate ⟨identities,identity.hash,target.length,
    flush s.ops literal⟩ = .ok ()) (fun _ => valid_of_encode) fun _ _ => trivial).bind fun _ hv =>
      Ends.pure ⟨hv,hbases,hbuilds,hthash⟩

/-- Making a recipe from files never underflows or indexes out of range. A recipe that is made passes
the checks of its profile, and applying it to the same files writes exactly the target: whatever
happens outside no other output is returned, and the output is returned when nothing stops it. -/
theorem stream_exact (cr : Crates) (env : Outside σ) (sources : List Bytes)
    (identities : List Base) (target : Bytes) (identity : Base) (s : σ) :
    create cr env sources identities target identity s ≠ .error .panic ∧
    ∀ r t, create cr env sources identities target identity s = .ok (r,t) →
      r.validate = .ok () ∧
      (∀ (later : Outside σ) (u v : σ) (output : Bytes),
        apply cr later r sources u = .ok (output,v) → output = target) ∧
      ∀ (later : Outside σ) (u : σ), later.Quiet →
        ∃ v, apply cr later r sources u = .ok (target,v) := by
  have hmade := @ends_create σ cr env (allows_true env) sources identities target identity
  refine ⟨hmade.not_panic s,?_⟩
  intro r t hr
  have hr := hmade.of_ok hr
  refine ⟨hr.valid,?_,?_⟩
  · intro later u v output ho
    exact (ends_apply (allows_true later) hr).of_ok ho
  · intro later u hq
    obtain ⟨output,v,hv,rfl⟩ := (ends_apply hq.allows hr).returns u
    exact ⟨v,hv⟩

end
end RisuNest.Transfer.Stream

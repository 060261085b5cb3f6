import RisuNest.Wire.Segments
import RisuNest.Wire.Sizes
import RisuNest.Lib.PageTree
import Mathlib.Data.List.Induction

/-! Restoring what was built from a stream (`build` and `restore` of `payload.rs`). It gives the
stream back unless there are more chunks and pages over them than `restore` visits. -/
namespace RisuNest.Wire.Segments

/-- What is read: the pieces before the first that is empty. -/
def stream : List (Option (List UInt8)) → List UInt8
  | [] => []
  | none :: _ => []
  | some [] :: _ => []
  | some piece :: rest => piece ++ stream rest

/-! ### Cutting -/

/-- One byte: the chunks so far, and the one that is filled. -/
def cutByte (s : List (List UInt8) × Scanner) (byte : UInt8) : List (List UInt8) × Scanner :=
  let scan := s.2.push byte
  if scan.full then (s.1 ++ [scan.bytes],{ scan with bytes := [] }) else (s.1,scan)

def cut (bytes : List UInt8) : List (List UInt8) × Scanner := bytes.foldl cutByte ([],.start)

/-- The chunks of a stream. -/
def segments (bytes : List UInt8) : List (List UInt8) :=
  let s := cut bytes
  if s.2.bytes ≠ [] ∨ s.1 = [] then s.1 ++ [s.2.bytes] else s.1

lemma cut_concat (bytes : List UInt8) (byte : UInt8) :
    cut (bytes ++ [byte]) = cutByte (cut bytes) byte := by
  rw [cut, List.foldl_append]
  rfl

lemma bytes_push (s : Scanner) (byte : UInt8) : (s.push byte).bytes = s.bytes ++ [byte] := rfl

lemma cut_spec (bytes : List UInt8) : (cut bytes).1.flatten ++ (cut bytes).2.bytes = bytes ∧
    (cut bytes).2.bytes.length < maxChunk ∧ ∀ c ∈ (cut bytes).1, c.length ≤ maxChunk := by
  induction bytes using List.reverseRecOn with
  | nil =>
    refine ⟨rfl,?_,List.forall_mem_nil _⟩
    change 0 < maxChunk
    decide
  | append_singleton bytes byte ih =>
    obtain ⟨hflat,hshort,hchunks⟩ := ih
    rw [cut_concat, cutByte]
    have hlen : ((cut bytes).2.push byte).bytes.length = (cut bytes).2.bytes.length + 1 := by
      rw [bytes_push, List.length_append, List.length_singleton]
    split_ifs with hfull
    · refine ⟨?_,?_,?_⟩
      · rw [List.flatten_concat, List.append_nil, bytes_push, ← List.append_assoc, hflat]
      · change 0 < maxChunk
        decide
      · intro c hc
        obtain hc | hc := List.mem_append.mp hc
        · exact hchunks c hc
        · rw [List.mem_singleton.mp hc, hlen]
          exact hshort
    · refine ⟨?_,?_,hchunks⟩
      · rw [bytes_push, ← List.append_assoc, hflat]
      · -- a chunk of the full length would have ended
        unfold Scanner.full at hfull
        simp only [Bool.or_eq_true, decide_eq_true_eq, not_or] at hfull
        exact lt_of_le_of_ne (hlen ▸ hshort) hfull.1

lemma segments_spec (bytes : List UInt8) : (segments bytes).flatten = bytes ∧
    segments bytes ≠ [] ∧ ∀ c ∈ segments bytes, c.length ≤ maxChunk := by
  obtain ⟨hflat,hshort,hchunks⟩ := cut_spec bytes
  unfold segments
  dsimp only
  split_ifs with hlast
  · refine ⟨by rw [List.flatten_concat, hflat],by simp,fun c hc => ?_⟩
    obtain hc | hc := List.mem_append.mp hc
    · exact hchunks c hc
    · exact List.mem_singleton.mp hc ▸ hshort.le
  · rw [not_or, not_not] at hlast
    rw [hlast.1, List.append_nil] at hflat
    exact ⟨hflat,hlast.2,hchunks⟩

section
variable {cr : Crates} {save : Saver}

/-- What `build` holds when it has read some bytes. -/
structure HasCut (cr : Crates) (bytes : List UInt8) (s : Cutter) : Prop where
  chunks : s.chunks = (cut bytes).1.map (chunkPart cr)
  scan : s.scan = (cut bytes).2
  saved : s.saved = (cut bytes).1

lemma saveObject_eq_ok {saved saved' : List (List UInt8)} {bytes : List UInt8}
    (h : saveObject save saved bytes = .ok saved') : saved' = saved ++ [bytes] := by
  obtain ⟨_,-,h⟩ := bind_eq_ok.mp h
  exact (Except.ok.inj h).symm

lemma saveChunk_eq_ok {s t : Cutter} {scan : Scanner} (h : saveChunk cr save s scan = .ok t) :
    t = { s with
      chunks := s.chunks ++ [chunkPart cr scan.bytes]
      scan := { scan with bytes := [] }
      saved := s.saved ++ [scan.bytes] } := by
  obtain ⟨saved,hsaved,h⟩ := bind_eq_ok.mp h
  rw [← saveObject_eq_ok hsaved]
  exact (Except.ok.inj h).symm

lemma HasCut.push {bytes : List UInt8} {s t : Cutter} {byte : UInt8} (hs : HasCut cr bytes s)
    (h : pushByte cr save s byte = .ok t) :
    HasCut cr (bytes ++ [byte]) t ∧ t.whole = s.whole ∧ t.total = s.total := by
  have hcut := cut_concat bytes byte
  unfold cutByte at hcut
  unfold pushByte at h
  rw [hs.scan] at h
  dsimp only at h hcut
  split_ifs at h hcut with hfull
  · obtain ⟨u,hu,h⟩ := bind_eq_ok.mp h
    obtain ⟨_,-,h⟩ := bind_eq_ok.mp h
    obtain rfl := Except.ok.inj h
    rw [saveChunk_eq_ok hu]
    refine ⟨⟨?_,?_,?_⟩,rfl,rfl⟩
    · rw [hcut, List.map_append, ← hs.chunks]
      rfl
    · rw [hcut]
    · rw [hcut, ← hs.saved]
  · obtain rfl := Except.ok.inj h
    refine ⟨⟨?_,?_,?_⟩,rfl,rfl⟩
    · rw [hcut]
      exact hs.chunks
    · rw [hcut]
    · rw [hcut]
      exact hs.saved

/-- Everything that was read was cut and counted. -/
structure HasRead (cr : Crates) (bytes : List UInt8) (s : Cutter) : Prop where
  cut : HasCut cr bytes s
  whole : s.whole = bytes
  total : s.total = bytes.length
  short : bytes.length < 2^64

lemma HasRead.piece {bytes piece : List UInt8} {s t : Cutter} (hs : HasRead cr bytes s)
    (h : pushPiece cr save s piece = .ok t) : HasRead cr (bytes ++ piece) t := by
  obtain ⟨_,hshort,h⟩ := bind_eq_ok.mp h
  have hshort := require_eq_ok.mp hshort
  rw [hs.total] at hshort
  have hfold := foldlM_induct (I := fun done u => HasCut cr (bytes ++ done) u ∧
    u.whole = s.whole ++ piece ∧ u.total = s.total + piece.length) ?_ ⟨?_,rfl,rfl⟩ h
  · obtain ⟨hcut,hwhole,htotal⟩ := hfold
    refine ⟨hcut,?_,?_,?_⟩
    · rw [hwhole, hs.whole]
    · rw [htotal, hs.total, List.length_append]
    · rwa [List.length_append]
  · rintro done u byte v ⟨hcut,hwhole,htotal⟩ hv
    obtain ⟨hcut,hw,ht⟩ := hcut.push hv
    rw [List.append_assoc] at hcut
    exact ⟨hcut,hw.trans hwhole,ht.trans htotal⟩
  · rw [List.append_nil]
    exact ⟨hs.cut.chunks,hs.cut.scan,hs.cut.saved⟩

lemma HasRead.start : HasRead cr [] Cutter.start := ⟨⟨rfl,rfl,rfl⟩,rfl,rfl,by decide⟩

lemma HasRead.pieces {reads : List (Option (List UInt8))} {bytes : List UInt8} {s t : Cutter}
    (hs : HasRead cr bytes s) (h : readPieces cr save s reads = .ok t) :
    HasRead cr (bytes ++ stream reads) t := by
  induction reads generalizing s bytes with
  | nil =>
    obtain rfl := Except.ok.inj h
    rw [stream, List.append_nil]
    exact hs
  | cons piece rest ih =>
    cases piece with
    | none => cases h
    | some piece =>
      cases piece with
      | nil =>
        obtain rfl := Except.ok.inj h
        rw [stream, List.append_nil]
        exact hs
      | cons byte piece =>
        obtain ⟨u,hu,h⟩ := bind_eq_ok.mp h
        have hrest := ih (hs.piece hu) h
        rwa [List.append_assoc] at hrest

lemma lastChunk_eq_ok {bytes : List UInt8} {s t : Cutter} (hs : HasRead cr bytes s)
    (h : lastChunk cr save s = .ok t) : t.chunks = (segments bytes).map (chunkPart cr) ∧
      t.saved = segments bytes ∧ t.whole = bytes ∧ t.total = bytes.length := by
  have hnil : s.chunks = [] ↔ (cut bytes).1 = [] := by
    rw [hs.cut.chunks, List.map_eq_nil_iff]
  unfold lastChunk at h
  unfold segments
  rw [hs.cut.scan] at h
  simp only [hnil] at h
  dsimp only
  split_ifs at h ⊢
  · rw [saveChunk_eq_ok h]
    refine ⟨?_,?_,hs.whole,hs.total⟩
    · rw [List.map_append, ← hs.cut.chunks]
      rfl
    · rw [← hs.cut.saved]
  · obtain rfl := Except.ok.inj h
    exact ⟨hs.cut.chunks,hs.cut.saved,hs.whole,hs.total⟩

end

/-! ### Groups of parts -/

/-- The groups that were closed, and the one that is filled. -/
structure Grouped (parts : List Part) (s : List (List Part) × List Part) : Prop where
  flat : s.1.flatten ++ s.2 = parts
  short : s.2.length < 64
  closed : ∀ g ∈ s.1, 16 ≤ g.length ∧ g.length ≤ 64

lemma Grouped.add {parts : List Part} {s : List (List Part) × List Part} (h : Grouped parts s)
    (part : Part) : Grouped (parts ++ [part]) (addPart s part) := by
  have hlen : (s.2 ++ [part]).length = s.2.length + 1 := List.length_append
  have hshort := h.short
  unfold addPart
  dsimp only
  split_ifs with hfull
  · refine ⟨?_,Nat.zero_lt_succ _,fun g hg => ?_⟩
    · rw [List.flatten_concat, List.append_nil, ← List.append_assoc, h.flat]
    · obtain hg | hg := List.mem_append.mp hg
      · exact h.closed g hg
      · rw [List.mem_singleton.mp hg]
        omega
  · refine ⟨by rw [← List.append_assoc, h.flat],?_,h.closed⟩
    change (s.2 ++ [part]).length < 64
    omega

lemma grouped (parts : List Part) : Grouped parts (parts.foldl addPart ([],[])) := by
  induction parts using List.reverseRecOn with
  | nil => exact ⟨rfl,by decide,List.forall_mem_nil _⟩
  | append_singleton parts part ih =>
    rw [List.foldl_append]
    exact ih.add part

lemma mul_length_le_flatten {groups : List (List Part)} (h : ∀ g ∈ groups, 16 ≤ g.length) :
    16*groups.length ≤ groups.flatten.length := by
  induction groups with
  | nil => exact Nat.zero_le _
  | cons g groups ih =>
    rw [List.forall_mem_cons] at h
    have := ih h.2
    rw [List.flatten_cons, List.length_append, List.length_cons]
    omega

lemma groupParts_spec (parts : List Part) : (groupParts parts).flatten = parts ∧
    (∀ g ∈ groupParts parts, g ≠ [] ∧ g.length ≤ 64) ∧
    16*(groupParts parts).length < parts.length + 16 := by
  have h := grouped parts
  have hflat := h.flat
  have hmany := mul_length_le_flatten fun g hg => (h.closed g hg).1
  have hlen := congrArg List.length hflat
  rw [List.length_append] at hlen
  have hclosed : ∀ g ∈ (parts.foldl addPart ([],[])).1, g ≠ [] ∧ g.length ≤ 64 := by
    intro g hg
    have := h.closed g hg
    exact ⟨List.ne_nil_of_length_pos (by omega),this.2⟩
  unfold groupParts
  dsimp only
  split_ifs with hlast
  · rw [hlast, List.append_nil] at hflat
    exact ⟨hflat,hclosed,by omega⟩
  · have hpos := List.length_pos_of_ne_nil hlast
    refine ⟨by rw [List.flatten_concat, hflat],fun g hg => ?_,?_⟩
    · obtain hg | hg := List.mem_append.mp hg
      · exact hclosed g hg
      · exact List.mem_singleton.mp hg ▸ ⟨hlast,h.short.le⟩
    · rw [List.length_append, List.length_singleton]
      omega

lemma sumSizes_eq_ok {parts : List Part} {sum : ℕ} (h : sumSizes parts = .ok sum) :
    sum = (parts.map Part.size).sum ∧ ∀ p ∈ parts, p.checkedSize = .ok p.size := by
  refine foldlM_induct (I := fun done sum => sum = (done.map Part.size).sum ∧
    ∀ p ∈ done, p.checkedSize = .ok p.size) ?_ ⟨rfl,List.forall_mem_nil _⟩ h
  rintro done sum part sum' ⟨hsum,hdone⟩ hpart
  obtain ⟨size,hsize,hpart⟩ := bind_eq_ok.mp hpart
  obtain ⟨_,-,hpart⟩ := bind_eq_ok.mp hpart
  obtain rfl := Except.ok.inj hpart
  have hown : size = part.size := by
    obtain ⟨_,-,hs⟩ := bind_eq_ok.mp hsize
    obtain ⟨_,-,hs⟩ := bind_eq_ok.mp hs
    exact (Except.ok.inj hs).symm
  rw [hown] at hsize ⊢
  refine ⟨?_,fun p hp => ?_⟩
  · rw [List.map_append, List.sum_append, hsum]
    simp
  · obtain hp | hp := List.mem_append.mp hp
    · exact hdone p hp
    · rwa [List.mem_singleton.mp hp]

def indexBytes (branches : Bool) (parts : List Part) : List UInt8 :=
  (Index.ofParts branches parts).toControl.encode

/-- The part that stands for an index. -/
def indexPart (cr : Crates) (branches : Bool) (parts : List Part) : Part :=
  ⟨hash cr (indexBytes branches parts),(parts.map Part.size).sum⟩

/-- The indexes over some parts, on all levels. -/
def indexesOver (cr : Crates) : ℕ → Bool → List Part → List (List UInt8)
  | 0, _, _ => []
  | levels+1, branches, parts =>
    let groups := groupParts parts
    groups.map (indexBytes branches) ++ if groups.length = 1 then []
      else indexesOver cr levels true (groups.map (indexPart cr branches))

/-- The chunks of a stream and the indexes over them. -/
def objects (cr : Crates) (bytes : List UInt8) : List (List UInt8) :=
  segments bytes ++ indexesOver cr maxDepth false ((segments bytes).map (chunkPart cr))

section
variable {cr : Crates} {save : Saver}

lemma addGroups_eq_ok {branches : Bool} {groups : List (List Part)} {saved : List (List UInt8)}
    {t : List Part × List (List UInt8)}
    (h : groups.foldlM (addGroup cr save branches) ([],saved) = .ok t) :
    t.1 = groups.map (indexPart cr branches) ∧
      t.2 = saved ++ groups.map (indexBytes branches) ∧
      ∀ g ∈ groups, sumSizes g = .ok (g.map Part.size).sum := by
  refine foldlM_induct (I := fun done t => t.1 = done.map (indexPart cr branches) ∧
    t.2 = saved ++ done.map (indexBytes branches) ∧
    ∀ g ∈ done, sumSizes g = .ok (g.map Part.size).sum) ?_ ⟨rfl,by simp,List.forall_mem_nil _⟩ h
  rintro done s group t ⟨hparts,hsaved,hsums⟩ ht
  obtain ⟨pair,hpair,ht⟩ := bind_eq_ok.mp ht
  obtain ⟨sum,hsum,hpair⟩ := bind_eq_ok.mp hpair
  obtain ⟨saved',hsaved',hpair⟩ := bind_eq_ok.mp hpair
  obtain rfl := Except.ok.inj hpair
  obtain rfl := Except.ok.inj ht
  obtain ⟨rfl,-⟩ := sumSizes_eq_ok hsum
  refine ⟨?_,?_,fun g hg => ?_⟩
  · rw [List.map_append, ← hparts]
    rfl
  · change saved' = _
    rw [saveObject_eq_ok hsaved', hsaved, List.map_append, List.append_assoc]
    rfl
  · obtain hg | hg := List.mem_append.mp hg
    · exact hsums g hg
    · rwa [List.mem_singleton.mp hg]

end

/-! ### What an entry leads to -/

/-- What is pending leads to a number of visits and to bytes that are written, if nothing but their
number stops it. -/
inductive Leads (cr : Crates) (load : String → Result (List UInt8)) :
    List Entry → ℕ → List UInt8 → Prop
  | nil : Leads cr load [] 0 []
  | chunk {e : Entry} {bytes : List UInt8} {pending : List Entry} {visits : ℕ} {out : List UInt8}
      (loaded : loadEntry cr load e = .ok bytes) (raw : e.raw = true)
      (size : bytes.length = e.size) (short : bytes.length ≤ maxChunk)
      (rest : Leads cr load pending visits out) :
      Leads cr load (e :: pending) (visits+1) (bytes ++ out)
  | index {e : Entry} {bytes : List UInt8} {parts pending : List Entry} {visits : ℕ}
      {out : List UInt8} (loaded : loadEntry cr load e = .ok bytes) (raw : e.raw = false)
      (opened : openIndex cr bytes e.size e.depth = .ok parts)
      (rest : Leads cr load (parts ++ pending) visits out) :
      Leads cr load (e :: pending) (visits+1) out

section
variable {cr : Crates} {load : String → Result (List UInt8)}

lemma Leads.append {a b : List Entry} {n m : ℕ} {x y : List UInt8} (ha : Leads cr load a n x)
    (hb : Leads cr load b m y) : Leads cr load (a ++ b) (n+m) (x ++ y) := by
  induction ha with
  | nil =>
    rw [Nat.zero_add]
    exact hb
  | chunk loaded raw size short _ ih =>
    rw [Nat.add_right_comm, List.append_assoc]
    exact .chunk loaded raw size short ih
  | index loaded raw opened _ ih =>
    rw [Nat.add_right_comm]
    rw [List.append_assoc] at ih
    exact .index loaded raw opened ih

/-- The loop writes everything if it may visit enough. -/
theorem restorePending_of_leads {pending : List Entry} {n : ℕ} {out : List UInt8}
    (h : Leads cr load pending n out) {expected : ℕ} (hexpected : expected < 2^64) {s : Restored}
    (hs : s.written + out.length ≤ expected) (limit : ℕ) :
    restorePending cr load (fun _ => .ok ()) expected limit pending s =
      if n ≤ limit then .ok ⟨s.whole ++ out,s.written + out.length,s.output ++ out⟩
      else .error ⟨"payload-tree-too-deep"⟩ := by
  induction h generalizing s limit with
  | nil =>
    rw [if_pos (Nat.zero_le _), List.append_nil, List.append_nil]
    cases limit <;> rfl
  | @chunk e bytes pending visits out loaded raw size short _ ih =>
    cases limit with
    | zero => rfl
    | succ limit =>
      rw [List.length_append] at hs
      rw [restorePending, loaded]
      change (if e.raw = true then _ else _) = _
      rw [if_pos raw]
      have hchunk : restoreChunk (fun _ => .ok ()) expected bytes e.size s =
          .ok ⟨s.whole ++ bytes,s.written + bytes.length,s.output ++ bytes⟩ := by
        unfold restoreChunk
        rw [← size]
        refine bind_eq_ok.mpr ⟨(),require_eq_ok.mpr ⟨short,rfl⟩,?_⟩
        refine bind_eq_ok.mpr ⟨(),require_eq_ok.mpr ⟨by omega,by omega⟩,rfl⟩
      rw [hchunk]
      refine (ih ?_ limit).trans ?_
      · change s.written + bytes.length + out.length ≤ expected
        omega
      · simp only [Nat.add_le_add_iff_right, List.append_assoc, List.length_append, Nat.add_assoc]
  | @index e bytes parts pending visits out loaded raw opened _ ih =>
    cases limit with
    | zero => rfl
    | succ limit =>
      rw [restorePending, loaded]
      change (if e.raw = true then _ else _) = _
      rw [if_neg (by simp [raw]), opened]
      refine (ih hs limit).trans ?_
      simp only [Nat.add_le_add_iff_right]

/-- How far a part is from being reached: under a number of levels, wherever it stands. -/
def Reaches (cr : Crates) (load : String → Result (List UInt8)) (height : ℕ) (raw : Bool)
    (p : Part) (r : ℕ × List UInt8) : Prop :=
  ∀ depth, depth + height ≤ maxDepth → Leads cr load [⟨p.hash,p.size,depth,raw⟩] r.1 r.2

lemma leads_parts {height depth : ℕ} {raw : Bool} {parts : List Part} {rs : List (ℕ × List UInt8)}
    (h : List.Forall₂ (Reaches cr load height raw) parts rs) (hd : depth + height ≤ maxDepth) :
    Leads cr load (parts.map fun p => ⟨p.hash,p.size,depth,raw⟩) (rs.map Prod.fst).sum
      (rs.map Prod.snd).flatten := by
  induction h with
  | nil => exact .nil
  | cons hp _ ih => exact (hp depth hd).append ih

lemma length_indexBytes_le {branches : Bool} {parts : List Part} (hne : parts ≠ [])
    (hlen : parts.length ≤ 64) (hsize : ∀ p ∈ parts, p.checkedSize = .ok p.size) :
    (indexBytes branches parts).length ≤ 64*1024 := by
  have hpart : ∀ p ∈ parts, byteLength p.toControl.write + 1 ≤ 600 := by
    intro p hp
    obtain ⟨_,hhash,hs⟩ := bind_eq_ok.mp (hsize p hp)
    obtain ⟨_,hs,-⟩ := bind_eq_ok.mp hs
    have h1 := (byteLength_hash hhash).2
    have h2 := byteLength_writeString_le p.size.repr
    have h3 : byteLength p.size.repr.toList ≤ 4*p.size.repr.toList.length := length_utf8_le _
    have h6 := length_repr_le (require_eq_ok.mp hs)
    unfold Part.toControl
    rw [byteLength_obj, byteLength_writeMembers, byteLength_writeMembers_nil, write_str, write_str,
      h1]
    have h4 : byteLength (writeString "hash") = 6 := by decide
    have h5 : byteLength (writeString "size") = 6 := by decide
    omega
  have hsum : (parts.map fun p => byteLength p.toControl.write + 1).sum ≤ parts.length*600 := by
    clear hlen hne hsize
    induction parts with
    | nil => exact Nat.zero_le _
    | cons p parts ih =>
      rw [List.forall_mem_cons] at hpart
      rw [List.map_cons, List.sum_cons, List.length_cons]
      have := ih hpart.2
      have := hpart.1
      omega
  have hkind : byteLength (writeString (if (Index.ofParts branches parts).isChunks then "chunks"
      else "branches")) ≤ 20 := by
    split_ifs <;> decide
  have hparts : (Index.ofParts branches parts).parts = parts := by cases branches <;> rfl
  unfold indexBytes Index.toControl
  rw [length_encode, byteLength_obj, byteLength_writeMembers, byteLength_writeMembers_nil,
    write_str, hparts, byteLength_arr (by simpa using hne), List.map_map]
  have h1 : byteLength (writeString "kind") = 6 := by decide
  have h2 : byteLength (writeString "parts") = 7 := by decide
  change (parts.map ((fun v => byteLength v.write + 1) ∘ Part.toControl)).sum ≤ _ at hsum
  omega

lemma Index.read_toControl {branches : Bool} {parts : List Part}
    (hsize : ∀ p ∈ parts, p.size < 2^64) :
    Index.read (Index.ofParts branches parts).toControl = some (.ofParts branches parts) := by
  have hparts : Index.readParts (.arr (parts.map Part.toControl)) = some parts := by
    change (parts.map Part.toControl).mapM Part.read = some parts
    rw [PageTree.mapM_eq_some, List.forall₂_map_left_iff]
    refine List.forall₂_same.mpr fun p hp => ?_
    simp [Part.read, Part.toControl, Control.member?, Control.text?,
      readSequence_repr (hsize p hp)]
  cases branches <;>
  simp [Index.read, Index.toControl, Index.ofParts, Index.parts, Index.isChunks, Index.tagged,
    Control.member?, Control.text?, hparts]

lemma openIndex_indexBytes {branches : Bool} {parts : List Part} {depth : ℕ}
    (hread : (cr.readJson (indexBytes branches parts)).bind Json.strict =
      some (Index.ofParts branches parts).toControl)
    (hne : parts ≠ []) (hlen : parts.length ≤ 64)
    (hsum : sumSizes parts = .ok (parts.map Part.size).sum) :
    openIndex cr (indexBytes branches parts) (parts.map Part.size).sum depth =
      .ok (parts.map fun p => ⟨p.hash,p.size,depth+1,!branches⟩) := by
  have hsize := (sumSizes_eq_ok hsum).2
  have hshort : ∀ p ∈ parts, p.size < 2^64 := by
    intro p hp
    obtain ⟨_,-,hs⟩ := bind_eq_ok.mp (hsize p hp)
    obtain ⟨_,hs,-⟩ := bind_eq_ok.mp hs
    exact require_eq_ok.mp hs
  have hdecode : decodeControl cr Index.read (indexBytes branches parts) (64*1024) =
      .ok (.ofParts branches parts) := by
    unfold decodeControl
    rw [if_neg (Nat.not_lt.mpr (length_indexBytes_le hne hlen hsize)), hread]
    dsimp only
    rw [Index.read_toControl hshort]
  have hparts : (Index.ofParts branches parts).parts = parts := by cases branches <;> rfl
  have hraw : (Index.ofParts branches parts).isChunks = !branches := by cases branches <;> rfl
  unfold openIndex
  refine bind_eq_ok.mpr ⟨_,hdecode,?_⟩
  rw [hparts, hraw]
  refine bind_eq_ok.mpr ⟨(),require_eq_ok.mpr ⟨hne,hlen⟩,?_⟩
  refine bind_eq_ok.mpr ⟨_,hsum,?_⟩
  refine bind_eq_ok.mpr ⟨(),require_eq_ok.mpr rfl,?_⟩
  refine mapM_eq_ok.mpr (List.forall₂_map_right_iff.mpr (List.forall₂_same.mpr fun p hp => ?_))
  exact bind_eq_ok.mpr ⟨p.size,hsize p hp,rfl⟩

lemma loadEntry_eq {bytes : List UInt8} (hb : load (hash cr bytes) = .ok bytes) {size depth : ℕ}
    {raw : Bool} (hd : depth ≤ maxDepth) :
    loadEntry cr load ⟨hash cr bytes,size,depth,raw⟩ = .ok bytes := by
  unfold loadEntry
  refine bind_eq_ok.mpr ⟨(),require_eq_ok.mpr hd,?_⟩
  refine bind_eq_ok.mpr ⟨_,hb,?_⟩
  exact bind_eq_ok.mpr ⟨(),require_eq_ok.mpr rfl,rfl⟩

lemma reaches_chunk {bytes : List UInt8} (hb : load (hash cr bytes) = .ok bytes)
    (hshort : bytes.length ≤ maxChunk) :
    Reaches cr load 0 true (chunkPart cr bytes) (1,bytes) := by
  intro depth hd
  have hloaded : loadEntry cr load ⟨hash cr bytes,bytes.length,depth,true⟩ = .ok bytes :=
    loadEntry_eq hb hd
  have hl := Leads.chunk hloaded rfl rfl hshort .nil
  rwa [List.append_nil] at hl

/-- What is known about the parts of an index that was saved. -/
structure Indexed (cr : Crates) (load : String → Result (List UInt8)) (branches : Bool)
    (parts : List Part) : Prop where
  some : parts ≠ []
  short : parts.length ≤ 64
  sum : sumSizes parts = .ok (parts.map Part.size).sum
  held : load (hash cr (indexBytes branches parts)) = .ok (indexBytes branches parts)
  read : (cr.readJson (indexBytes branches parts)).bind Json.strict =
    Option.some (Index.ofParts branches parts).toControl

lemma reaches_groups {height : ℕ} {branches : Bool} {groups : List (List Part)}
    {rs : List (ℕ × List UInt8)}
    (hr : List.Forall₂ (Reaches cr load height (!branches)) groups.flatten rs)
    (hgroups : ∀ g ∈ groups, Indexed cr load branches g) :
    ∃ rs', List.Forall₂ (Reaches cr load (height+1) false) (groups.map (indexPart cr branches))
        rs' ∧
      (rs'.map Prod.fst).sum = (rs.map Prod.fst).sum + groups.length ∧
      (rs'.map Prod.snd).flatten = (rs.map Prod.snd).flatten := by
  induction groups generalizing rs with
  | nil =>
    obtain rfl := List.forall₂_nil_left_iff.mp hr
    exact ⟨[],.nil,rfl,rfl⟩
  | cons g groups ih =>
    rw [List.flatten_cons, PageTree.forall₂_append] at hr
    obtain ⟨below,rest,rfl,hbelow,hrest⟩ := hr
    rw [List.forall_mem_cons] at hgroups
    obtain ⟨rs',hrs,hvisits,hout⟩ := ih hrest hgroups.2
    have hg := hgroups.1
    refine ⟨((below.map Prod.fst).sum+1,(below.map Prod.snd).flatten) :: rs',.cons ?_ hrs,?_,?_⟩
    · intro depth hd
      refine .index (loadEntry_eq hg.held (Nat.le_of_add_right_le hd)) rfl
        (openIndex_indexBytes hg.read hg.some hg.short hg.sum) ?_
      rw [List.append_nil]
      exact leads_parts hbelow (by rw [Nat.add_right_comm]; exact hd)
    · simp only [List.map_cons, List.sum_cons, List.map_append, List.sum_append, List.length_cons]
      omega
    · rw [List.map_cons, List.flatten_cons, hout, List.map_append, List.flatten_append]

lemma sum_indexParts (branches : Bool) (groups : List (List Part)) :
    ((groups.map (indexPart cr branches)).map Part.size).sum =
      (groups.flatten.map Part.size).sum := by
  induction groups with
  | nil => rfl
  | cons g groups ih =>
    rw [List.flatten_cons, List.map_append, List.sum_append, ← ih]
    rfl

end

section
variable {cr : Crates} {save : Saver}

lemma buildIndex_succ {levels : ℕ} {branches : Bool} {parts : List Part}
    {saved saved' : List (List UInt8)} {root : Part}
    (h : buildIndex cr save (levels+1) branches parts saved = .ok (root,saved')) :
    (∀ g ∈ groupParts parts, sumSizes g = .ok (g.map Part.size).sum) ∧
    ((groupParts parts).map (indexPart cr branches) = [root] ∧
        saved' = saved ++ (groupParts parts).map (indexBytes branches) ∨
      (groupParts parts).length ≠ 1 ∧
        buildIndex cr save levels true ((groupParts parts).map (indexPart cr branches))
          (saved ++ (groupParts parts).map (indexBytes branches)) = .ok (root,saved')) := by
  obtain ⟨next,hnext,h⟩ := bind_eq_ok.mp h
  obtain ⟨hparts,hsaved,hsums⟩ := addGroups_eq_ok hnext
  refine ⟨hsums,?_⟩
  rw [← hparts, ← hsaved, ← List.length_map (indexPart cr branches), ← hparts]
  split at h
  · rename_i top htop
    cases h
    exact .inl ⟨htop,rfl⟩
  · rename_i hmany
    exact .inr ⟨fun hone => hmany _ (List.length_eq_one_iff.mp hone).choose_spec,h⟩

lemma buildIndex_saved {levels : ℕ} {branches : Bool} {parts : List Part}
    {saved saved' : List (List UInt8)} {root : Part}
    (h : buildIndex cr save levels branches parts saved = .ok (root,saved')) :
    saved' = saved ++ indexesOver cr levels branches parts := by
  induction levels generalizing branches parts saved with
  | zero => cases h
  | succ levels ih =>
    rw [indexesOver]
    obtain ⟨-,⟨hone,rfl⟩ | ⟨hmany,h⟩⟩ := buildIndex_succ h
    · have hlen := congrArg List.length hone
      rw [List.length_map, List.length_singleton] at hlen
      rw [if_pos hlen, List.append_nil]
    · rw [if_neg hmany, ih h, List.append_assoc]

/-- The root of the indexes leads to what the parts lead to. -/
theorem buildIndex_leads {load : String → Result (List UInt8)} {levels height : ℕ}
    {branches : Bool} {parts : List Part} {saved saved' : List (List UInt8)} {root : Part}
    (h : buildIndex cr save levels branches parts saved = .ok (root,saved'))
    {rs : List (ℕ × List UInt8)} (hr : List.Forall₂ (Reaches cr load height (!branches)) parts rs)
    (hheight : height + levels ≤ maxDepth)
    (held : ∀ b ∈ saved', load (hash cr b) = .ok b)
    (hread : ∀ branches parts, indexBytes branches parts ∈ saved' →
      (cr.readJson (indexBytes branches parts)).bind Json.strict =
        some (Index.ofParts branches parts).toControl) :
    (∃ b, root.hash = hash cr b) ∧ root.size = (parts.map Part.size).sum ∧
      Leads cr load [⟨root.hash,root.size,0,false⟩]
        ((rs.map Prod.fst).sum + (indexesOver cr levels branches parts).length)
        (rs.map Prod.snd).flatten := by
  induction levels generalizing height branches parts saved rs with
  | zero => cases h
  | succ levels ih =>
    obtain ⟨hflat,hgroups,-⟩ := groupParts_spec parts
    have hsaved := buildIndex_saved h
    obtain ⟨hsums,hnext⟩ := buildIndex_succ h
    have hindexed : ∀ g ∈ groupParts parts, Indexed cr load branches g := by
      intro g hg
      have hmem : indexBytes branches g ∈ saved' := by
        rw [hsaved, indexesOver]
        exact List.mem_append_right _ (List.mem_append_left _ (List.mem_map_of_mem hg))
      exact ⟨(hgroups g hg).1,(hgroups g hg).2,hsums g hg,held _ hmem,hread _ _ hmem⟩
    have hsum := @sum_indexParts cr branches (groupParts parts)
    rw [hflat] at hsum
    rw [← hflat] at hr
    obtain ⟨rs',hrs,hvisits,hout⟩ := reaches_groups hr hindexed
    rw [indexesOver, List.length_append, List.length_map, ← Nat.add_assoc, ← hvisits, ← hout]
    obtain ⟨hone,-⟩ | ⟨hmany,hrest⟩ := hnext
    · -- the only index of this level is the root
      have hlen := congrArg List.length hone
      rw [List.length_map, List.length_singleton] at hlen
      have hmem : root ∈ (groupParts parts).map (indexPart cr branches) :=
        hone ▸ List.mem_singleton_self root
      obtain ⟨g,-,hg⟩ := List.mem_map.mp hmem
      rw [hone] at hsum hrs
      obtain ⟨r,rest,hroot,hrest,rfl⟩ := List.forall₂_cons_left_iff.mp hrs
      obtain rfl := List.forall₂_nil_left_iff.mp hrest
      refine ⟨⟨indexBytes branches g,congrArg Part.hash hg.symm⟩,by simpa using hsum,?_⟩
      rw [if_pos hlen]
      simpa using hroot 0 (by omega)
    · obtain ⟨hhash,hsize,hleads⟩ := ih hrest hrs (by omega)
      rw [if_neg hmany]
      exact ⟨hhash,hsize.trans hsum,hleads⟩

end

/-! ### The round trip -/

/-- What was saved, by its hash. -/
def loadSaved (cr : Crates) (saved : List (List UInt8)) (digest : String) : Result (List UInt8) :=
  match saved.find? fun b => hash cr b = digest with
  | some b => .ok b
  | none => .error ⟨"object-not-found"⟩

lemma loadSaved_hash {cr : Crates} {texts : Set (List UInt8)} (free : CollisionFree cr texts)
    {saved : List (List UInt8)} (htexts : ∀ b ∈ saved, b ∈ texts) {b : List UInt8}
    (hb : b ∈ saved) : loadSaved cr saved (hash cr b) = .ok b := by
  unfold loadSaved
  cases hf : saved.find? fun c => hash cr c = hash cr b with
  | none => exact absurd (List.find?_eq_none.mp hf b hb) (by simp)
  | some c =>
    have he : hash cr c = hash cr b := by simpa using List.find?_some hf
    exact congrArg Except.ok (free (htexts c (List.mem_of_find?_eq_some hf)) (htexts b hb) he)

lemma build_eq_ok {cr : Crates} {save : Saver} {reads : List (Option (List UInt8))}
    {payload : Payload} {saved : List (List UInt8)}
    (h : build cr save reads = .ok (payload,saved)) :
    (stream reads).length < 2^64 ∧ ∃ root, payload =
        ⟨cr.sha256 (stream reads),(stream reads).length,root.hash⟩ ∧
      buildIndex cr save maxDepth false ((segments (stream reads)).map (chunkPart cr))
        (segments (stream reads)) = .ok (root,saved) := by
  obtain ⟨s,hs,h⟩ := bind_eq_ok.mp h
  obtain ⟨t,ht,h⟩ := bind_eq_ok.mp h
  obtain ⟨top,htop,h⟩ := bind_eq_ok.mp h
  have hread := HasRead.start.pieces hs
  rw [List.nil_append] at hread
  obtain ⟨hchunks,hsaved,hwhole,htotal⟩ := lastChunk_eq_ok hread ht
  rw [hchunks, hsaved] at htop
  rw [hwhole, htotal] at h
  cases h
  exact ⟨hread.short,top.1,rfl,htop⟩

/-- What `restore` makes of a payload that was built. -/
theorem restore_built {cr : Crates} {texts : Set (List UInt8)}
    (hhex : ∀ b, validateHash (cr.sha256 b) = .ok ()) (free : CollisionFree cr texts)
    (hread : ∀ i : Index, i.toControl.encode ∈ texts →
      (cr.readJson i.toControl.encode).bind Json.strict = some i.toControl)
    {save : Saver} {reads : List (Option (List UInt8))} {payload : Payload}
    {saved : List (List UInt8)} (h : build cr save reads = .ok (payload,saved))
    (htexts : ∀ b ∈ objects cr (stream reads), b ∈ texts) :
    saved = objects cr (stream reads) ∧
    restore cr (loadSaved cr saved) (fun _ => .ok ()) payload =
      if (objects cr (stream reads)).length ≤ maxVisits then .ok (stream reads)
      else .error ⟨"payload-tree-too-deep"⟩ := by
  obtain ⟨hshort,root,rfl,hroot⟩ := build_eq_ok h
  generalize stream reads = bytes at hshort hroot htexts ⊢
  obtain ⟨hflat,-,hchunks⟩ := segments_spec bytes
  have hsaved : saved = objects cr bytes := buildIndex_saved hroot
  refine ⟨hsaved,?_⟩
  have held : ∀ b ∈ saved, loadSaved cr saved (hash cr b) = .ok b := fun b =>
    loadSaved_hash free fun b hb => htexts b (hsaved ▸ hb)
  have hparts : List.Forall₂ (Reaches cr (loadSaved cr saved) 0 true)
      ((segments bytes).map (chunkPart cr)) ((segments bytes).map fun c => (1,c)) := by
    rw [List.forall₂_map_left_iff, List.forall₂_map_right_iff]
    exact List.forall₂_same.mpr fun c hc =>
      reaches_chunk (held c (hsaved ▸ List.mem_append_left _ hc)) (hchunks c hc)
  obtain ⟨⟨b,hhash⟩,hsize,hleads⟩ := buildIndex_leads hroot hparts (Nat.le_of_eq (Nat.zero_add _))
    held fun branches parts hmem => hread _ (htexts _ (hsaved ▸ hmem))
  have hsizes : (((segments bytes).map (chunkPart cr)).map Part.size).sum = bytes.length := by
    rw [List.map_map]
    change ((segments bytes).map List.length).sum = _
    rw [← List.length_flatten, hflat]
  have hone : (((segments bytes).map fun c => (1,c)).map Prod.fst).sum = (segments bytes).length := by
    rw [List.map_map]
    change ((segments bytes).map fun _ => 1).sum = _
    simp
  have hout : (((segments bytes).map fun c => (1,c)).map Prod.snd).flatten = bytes := by
    rw [List.map_map]
    change ((segments bytes).map fun c => c).flatten = bytes
    rw [List.map_id', hflat]
  rw [hsize, hsizes, hone, hout, ← List.length_append] at hleads
  have hloop := restorePending_of_leads hleads hshort (s := ⟨[],0,[]⟩) (by simp) maxVisits
  unfold restore
  rw [hhash] at hloop ⊢
  dsimp only
  rw [show validateHash (hash cr b) = .ok () from hhex b, hhex bytes, require_eq_ok.mpr hshort]
  change (restorePending cr _ _ _ _ _ _ >>= _) = _
  rw [hloop]
  change (ite ((objects cr bytes).length ≤ maxVisits) _ _ >>= _) = _
  split_ifs
  · refine bind_eq_ok.mpr ⟨_,rfl,bind_eq_ok.mpr ⟨(),require_eq_ok.mpr ?_,rfl⟩⟩
    simp
  · rfl

/-! ### What can be built -/

section
variable {cr : Crates}

lemma length_cut_le (a b : List UInt8) : (cut a).1.length ≤ (cut (a ++ b)).1.length := by
  induction b using List.reverseRecOn with
  | nil => rw [List.append_nil]
  | append_singleton b byte ih =>
    refine ih.trans ?_
    rw [← List.append_assoc, cut_concat, cutByte]
    split_ifs
    · rw [List.length_append]
      exact Nat.le_add_right _ _
    · exact Nat.le_refl _

lemma pushByte_answers {bytes : List UInt8} {s : Cutter} {byte : UInt8} (hs : HasCut cr bytes s)
    (h : (cut (bytes ++ [byte])).1.length ≤ maxParts) :
    ∃ t, pushByte cr (fun _ => .ok ()) s byte = .ok t := by
  rw [cut_concat, cutByte] at h
  unfold pushByte
  rw [hs.scan]
  dsimp only at h ⊢
  split_ifs at h ⊢ with hfull
  · refine ⟨_,bind_eq_ok.mpr ⟨_,rfl,bind_eq_ok.mpr ⟨(),require_eq_ok.mpr ?_,rfl⟩⟩⟩
    change (s.chunks ++ [_]).length ≤ maxParts
    rw [List.length_append] at h ⊢
    rwa [hs.chunks, List.length_map]
  · exact ⟨_,rfl⟩

lemma pushPiece_answers {bytes piece : List UInt8} {s : Cutter} (hs : HasRead cr bytes s)
    (hlen : (bytes ++ piece).length < 2^64) (h : (cut (bytes ++ piece)).1.length ≤ maxParts) :
    ∃ t, pushPiece cr (fun _ => .ok ()) s piece = .ok t := by
  unfold pushPiece
  rw [List.length_append, ← hs.total] at hlen
  rw [require_eq_ok.mpr hlen]
  have step : ∀ done byte rest u, piece = done ++ byte :: rest → HasCut cr (bytes ++ done) u →
      ∃ t, pushByte cr (fun _ => .ok ()) u byte = .ok t ∧ HasCut cr (bytes ++ (done ++ [byte])) t := by
    rintro done byte rest u rfl hu
    have hle := length_cut_le (bytes ++ done ++ [byte]) rest
    have happ : bytes ++ done ++ [byte] ++ rest = bytes ++ (done ++ byte :: rest) := by simp
    rw [happ] at hle
    obtain ⟨t,ht⟩ := pushByte_answers hu (hle.trans h)
    refine ⟨t,ht,?_⟩
    rw [← List.append_assoc]
    exact (hu.push ht).1
  obtain ⟨t,ht,-⟩ := foldlM_total step (s :=
    { s with whole := s.whole ++ piece, total := s.total + piece.length })
      ⟨by rw [List.append_nil]; exact hs.cut.chunks,by rw [List.append_nil]; exact hs.cut.scan,
        by rw [List.append_nil]; exact hs.cut.saved⟩
  exact ⟨t,ht⟩

lemma readPieces_answers {reads : List (Option (List UInt8))} (hsome : ∀ r ∈ reads, r ≠ none)
    {bytes : List UInt8} {s : Cutter} (hs : HasRead cr bytes s)
    (hlen : (bytes ++ stream reads).length < 2^64)
    (h : (cut (bytes ++ stream reads)).1.length ≤ maxParts) :
    ∃ t, readPieces cr (fun _ => .ok ()) s reads = .ok t := by
  induction reads generalizing s bytes with
  | nil => exact ⟨s,rfl⟩
  | cons piece rest ih =>
    rw [List.forall_mem_cons] at hsome
    cases piece with
    | none => exact absurd rfl hsome.1
    | some piece =>
      cases piece with
      | nil => exact ⟨s,rfl⟩
      | cons byte piece =>
        change (bytes ++ ((byte :: piece) ++ stream rest)).length < 2^64 at hlen
        change (cut (bytes ++ ((byte :: piece) ++ stream rest))).1.length ≤ maxParts at h
        rw [← List.append_assoc] at hlen h
        have hpart := hlen
        rw [List.length_append] at hpart
        obtain ⟨u,hu⟩ := pushPiece_answers hs (Nat.lt_of_le_of_lt (Nat.le_add_right _ _) hpart)
          ((length_cut_le _ _).trans h)
        obtain ⟨t,ht⟩ := ih hsome.2 (hs.piece hu) hlen h
        exact ⟨t,bind_eq_ok.mpr ⟨u,hu,ht⟩⟩

lemma sumSizes_answers {parts : List Part} (hhash : ∀ p ∈ parts, validateHash p.hash = .ok ())
    (hlen : (parts.map Part.size).sum < 2^64) :
    sumSizes parts = .ok (parts.map Part.size).sum := by
  have step : ∀ done part rest sum, parts = done ++ part :: rest →
      sum = (done.map Part.size).sum → ∃ sum',
        (do
          let size ← part.checkedSize
          require (sum + size < 2^64) ⟨"payload-too-large"⟩
          pure (sum + size) : Result ℕ) = .ok sum' ∧
        sum' = ((done ++ [part]).map Part.size).sum := by
    rintro done part rest sum rfl rfl
    have hmem := hhash part (List.mem_append_right _ List.mem_cons_self)
    rw [List.map_append, List.sum_append, List.map_cons, List.sum_cons] at hlen
    refine ⟨_,bind_eq_ok.mpr ⟨part.size,?_,bind_eq_ok.mpr ⟨(),require_eq_ok.mpr ?_,rfl⟩⟩,?_⟩
    · refine bind_eq_ok.mpr ⟨(),hmem,bind_eq_ok.mpr ⟨(),require_eq_ok.mpr ?_,rfl⟩⟩
      omega
    · omega
    · rw [List.map_append, List.sum_append]
      simp
  obtain ⟨sum,hsum,rfl⟩ := foldlM_total step (s := 0) rfl
  exact hsum

lemma addGroups_answers {branches : Bool} {groups : List (List Part)}
    (h : ∀ g ∈ groups, sumSizes g = .ok (g.map Part.size).sum) (parts : List Part)
    (saved : List (List UInt8)) :
    groups.foldlM (addGroup cr (fun _ => .ok ()) branches) (parts,saved) =
      .ok (parts ++ groups.map (indexPart cr branches),
        saved ++ groups.map (indexBytes branches)) := by
  induction groups generalizing parts saved with
  | nil => simp [pure, Except.pure]
  | cons g groups ih =>
    rw [List.forall_mem_cons] at h
    have hg : addGroup cr (fun _ => .ok ()) branches (parts,saved) g =
        .ok (parts ++ [indexPart cr branches g],saved ++ [indexBytes branches g]) :=
      bind_eq_ok.mpr ⟨(indexPart cr branches g,_),bind_eq_ok.mpr ⟨_,h.1,rfl⟩,rfl⟩
    refine foldlM_cons_eq_ok.mpr ⟨_,hg,(ih h.2 _ _).trans ?_⟩
    simp only [List.append_assoc, List.singleton_append, List.map_cons]

lemma buildIndex_answers (hhex : ∀ b, validateHash (cr.sha256 b) = .ok ()) {levels : ℕ}
    {branches : Bool} {parts : List Part} (hne : parts ≠ []) (hlevels : levels ≠ 0)
    (hcount : parts.length ≤ 16^levels) (hhash : ∀ p ∈ parts, validateHash p.hash = .ok ())
    (hlen : (parts.map Part.size).sum < 2^64) (saved : List (List UInt8)) :
    ∃ top, buildIndex cr (fun _ => .ok ()) levels branches parts saved = .ok top := by
  induction levels generalizing branches parts saved with
  | zero => exact absurd rfl hlevels
  | succ levels ih =>
    obtain ⟨hflat,hgroups,hfewer⟩ := groupParts_spec parts
    have hsums : ∀ g ∈ groupParts parts, sumSizes g = .ok (g.map Part.size).sum := by
      intro g hg
      refine sumSizes_answers (fun p hp => hhash p ?_) (Nat.lt_of_le_of_lt ?_ hlen)
      · exact hflat ▸ List.mem_flatten_of_mem hg hp
      · obtain ⟨before,behind,hsplit⟩ := List.append_of_mem hg
        rw [← hflat, hsplit, List.flatten_append, List.flatten_cons]
        simp only [List.map_append, List.sum_append]
        omega
    have hnext := @addGroups_answers cr branches _ hsums [] saved
    rw [List.nil_append] at hnext
    have hsome : groupParts parts ≠ [] := by
      intro hnil
      rw [hnil] at hflat
      exact hne hflat.symm
    have hpos := List.length_pos_of_ne_nil hsome
    unfold buildIndex
    rw [hnext]
    dsimp only [bind, Except.bind]
    split
    · exact ⟨_,rfl⟩
    · rename_i hmany
      have hmany : (groupParts parts).length ≠ 1 := by
        intro hone
        obtain ⟨g,hg⟩ := List.length_eq_one_iff.mp hone
        exact hmany (indexPart cr branches g) (by rw [hg]; rfl)
      rw [Nat.pow_succ] at hcount
      refine ih (by simpa using hsome) ?_ ?_ ?_ ?_ _
      · rintro rfl
        omega
      · rw [List.length_map]
        omega
      · intro p hp
        obtain ⟨g,-,rfl⟩ := List.mem_map.mp hp
        exact hhex _
      · rw [sum_indexParts, hflat]
        exact hlen

/-- A stream is built if its length fits its type and no more chunks end in it than may. -/
theorem exists_build (hhex : ∀ b, validateHash (cr.sha256 b) = .ok ())
    {reads : List (Option (List UInt8))} (hsome : ∀ r ∈ reads, r ≠ none)
    (hlen : (stream reads).length < 2^64) (h : (cut (stream reads)).1.length ≤ maxParts) :
    ∃ payload saved, build cr (fun _ => .ok ()) reads = .ok (payload,saved) := by
  obtain ⟨s,hs⟩ := readPieces_answers hsome (@HasRead.start cr) hlen h
  have hread := HasRead.start.pieces hs
  rw [List.nil_append] at hread
  obtain ⟨t,ht⟩ : ∃ t, lastChunk cr (fun _ => .ok ()) s = .ok t := by
    unfold lastChunk
    split_ifs <;> exact ⟨_,rfl⟩
  obtain ⟨hchunks,-,-,-⟩ := lastChunk_eq_ok hread ht
  obtain ⟨hflat,hne,-⟩ := segments_spec (stream reads)
  have hcount : (segments (stream reads)).length ≤ maxParts + 1 := by
    unfold segments
    dsimp only
    split_ifs
    · rw [List.length_append]
      exact Nat.succ_le_succ h
    · exact Nat.le_succ_of_le h
  obtain ⟨top,htop⟩ := @buildIndex_answers cr hhex maxDepth false t.chunks
    (by simpa [hchunks] using hne) (by decide) (by
      rw [hchunks, List.length_map]
      exact hcount.trans (by decide)) (by
      rw [hchunks]
      intro p hp
      obtain ⟨c,-,rfl⟩ := List.mem_map.mp hp
      exact hhex c) (by
      rw [hchunks, List.map_map]
      change ((segments (stream reads)).map List.length).sum < _
      rwa [← List.length_flatten, hflat]) t.saved
  exact ⟨_,_,bind_eq_ok.mpr ⟨s,hs,bind_eq_ok.mpr ⟨t,ht,bind_eq_ok.mpr ⟨top,htop,rfl⟩⟩⟩⟩

end
end RisuNest.Wire.Segments

import RisuNest.Wire.SegmentTree

/-! A payload is one of its bytes: how a reader splits them makes no difference to what `build`
saves and gives. -/
namespace RisuNest.Wire.Segments

/-- A reader that gives these bytes in pieces, none of them empty or longer than the buffer. -/
structure Delivers (reads : List (Option (List UInt8))) (bytes : List UInt8) : Prop where
  pieces : ∀ r ∈ reads, ∃ piece, r = some piece ∧ piece ≠ [] ∧ piece.length ≤ 64*1024
  stream : stream reads = bytes

section
variable {cr : Crates} {save : Saver}

/-- Some bytes in one go. -/
def pushAll (cr : Crates) (save : Saver) (s : Cutter) (bytes : List UInt8) : Result Cutter := do
  let t ← bytes.foldlM (pushByte cr save) s
  pure { t with whole := s.whole ++ bytes, total := s.total + bytes.length }

lemma pushByte_read (s : Cutter) (whole : List UInt8) (total : ℕ) (byte : UInt8) :
    pushByte cr save { s with whole, total } byte =
      (pushByte cr save s byte).map fun t => { t with whole, total } := by
  unfold pushByte saveChunk saveObject
  dsimp only
  split_ifs with hfull
  · cases save (s.saved ++ [(s.scan.push byte).bytes]) with
    | error e => rfl
    | ok _ =>
      by_cases hparts : (s.chunks ++ [chunkPart cr (s.scan.push byte).bytes]).length ≤ maxParts
      · change (require _ _ >>= _) = Except.map _ (require _ _ >>= _)
        rw [require_eq_ok.mpr hparts]
        rfl
      · change (require _ _ >>= _) = Except.map _ (require _ _ >>= _)
        rw [require_eq_error.mpr ⟨hparts,rfl⟩]
        rfl
  · rfl

lemma foldlM_pushByte_read (bytes : List UInt8) (s : Cutter) (whole : List UInt8) (total : ℕ) :
    bytes.foldlM (pushByte cr save) { s with whole, total } =
      (bytes.foldlM (pushByte cr save) s).map fun t => { t with whole, total } := by
  induction bytes generalizing s with
  | nil => rfl
  | cons byte bytes ih =>
    rw [List.foldlM_cons, List.foldlM_cons, pushByte_read]
    cases pushByte cr save s byte with
    | error e => rfl
    | ok t => exact ih t

lemma pushAll_nil (s : Cutter) : pushAll cr save s [] = .ok s := by
  unfold pushAll
  rw [List.append_nil]
  rfl

lemma pushAll_append (s : Cutter) (a b : List UInt8) :
    pushAll cr save s (a ++ b) = pushAll cr save s a >>= fun t => pushAll cr save t b := by
  unfold pushAll
  rw [List.foldlM_append]
  cases a.foldlM (pushByte cr save) s with
  | error e => rfl
  | ok t =>
    change (b.foldlM (pushByte cr save) t >>= _) = b.foldlM (pushByte cr save) _ >>= _
    rw [foldlM_pushByte_read b t (s.whole ++ a) (s.total + a.length)]
    cases b.foldlM (pushByte cr save) t with
    | error e => rfl
    | ok u =>
      change Except.ok _ = Except.ok _
      simp only [List.append_assoc, List.length_append, Nat.add_assoc]

lemma pushPiece_eq {s : Cutter} {piece : List UInt8} (hroom : s.total + piece.length < 2^64) :
    pushPiece cr save s piece = pushAll cr save s piece := by
  unfold pushPiece pushAll
  rw [require_eq_ok.mpr hroom]
  change piece.foldlM (pushByte cr save) _ = _
  rw [foldlM_pushByte_read]
  cases piece.foldlM (pushByte cr save) s <;> rfl

lemma length_chunks_le {s t : Cutter} {bytes : List UInt8} (hs : s.chunks.length ≤ maxParts)
    (h : bytes.foldlM (pushByte cr save) s = .ok t) : t.chunks.length ≤ maxParts := by
  refine foldlM_induct (I := fun _ u => u.chunks.length ≤ maxParts) ?_ hs h
  intro done u byte v hu hv
  unfold pushByte at hv
  dsimp only at hv
  split_ifs at hv with hfull
  · obtain ⟨w, -, hv⟩ := bind_eq_ok.mp hv
    obtain ⟨_, hparts, hv⟩ := bind_eq_ok.mp hv
    obtain rfl := Except.ok.inj hv
    exact require_eq_ok.mp hparts
  · obtain rfl := Except.ok.inj hv
    exact hu

lemma room {s : Cutter} {bytes piece : List UInt8} (hs : HasRead cr bytes s)
    (hchunks : s.chunks.length ≤ maxParts) (hpiece : piece.length ≤ 64*1024) :
    s.total + piece.length < 2^64 := by
  obtain ⟨hflat, hshort, hlong⟩ := cut_spec bytes
  have hcount : (cut bytes).1.length ≤ maxParts := by
    rw [hs.cut.chunks, List.length_map] at hchunks
    exact hchunks
  have hsum : ∀ chunks : List (List UInt8), (∀ c ∈ chunks, c.length ≤ maxChunk) →
      chunks.flatten.length ≤ chunks.length*maxChunk := by
    intro chunks
    induction chunks with
    | nil => simp
    | cons c chunks ih =>
      intro h
      rw [List.forall_mem_cons] at h
      have := ih h.2
      rw [List.flatten_cons, List.length_append, List.length_cons, Nat.add_mul]
      omega
  have hbytes := congrArg List.length hflat
  have htotal := (hsum _ hlong).trans (Nat.mul_le_mul_right maxChunk hcount)
  have hbound : maxParts*maxChunk + maxChunk + 64*1024 < 2^64 := by decide
  rw [List.length_append] at hbytes
  rw [hs.total]
  omega

lemma readPieces_eq {reads : List (Option (List UInt8))} {bytes : List UInt8} {s : Cutter}
    (hs : HasRead cr bytes s) (hchunks : s.chunks.length ≤ maxParts)
    (hreads : ∀ r ∈ reads, ∃ piece, r = some piece ∧ piece ≠ [] ∧ piece.length ≤ 64*1024) :
    readPieces cr save s reads = pushAll cr save s (stream reads) := by
  induction reads generalizing s bytes with
  | nil => exact (pushAll_nil s).symm
  | cons r reads ih =>
    rw [List.forall_mem_cons] at hreads
    obtain ⟨⟨piece, rfl, hne, hpiece⟩, hreads⟩ := hreads
    have hpush : pushPiece cr save s piece = pushAll cr save s piece :=
      pushPiece_eq (room hs hchunks hpiece)
    obtain ⟨byte, piece, rfl⟩ := List.exists_cons_of_ne_nil hne
    change (pushPiece cr save s (byte :: piece) >>= fun t => readPieces cr save t reads) =
      pushAll cr save s (byte :: piece ++ stream reads)
    rw [pushAll_append, hpush]
    cases ht : pushAll cr save s (byte :: piece) with
    | error e => rfl
    | ok t =>
      refine ih (hs.piece (hpush.trans ht)) ?_ hreads
      obtain ⟨u, hu, ht⟩ := bind_eq_ok.mp ht
      rw [← Except.ok.inj ht]
      change u.chunks.length ≤ maxParts
      exact length_chunks_le hchunks hu

/-- The payload, the objects that are saved and every failure are those of the bytes. The saver
sees all that was saved before, so none of its answers depends on the reads. -/
theorem build_of_bytes {reads reads' : List (Option (List UInt8))} {bytes : List UInt8}
    (h : Delivers reads bytes) (h' : Delivers reads' bytes) :
    build cr save reads = build cr save reads' := by
  have hstart := @HasRead.start cr
  have hread : ∀ {reads}, Delivers reads bytes →
      readPieces cr save .start reads = pushAll cr save .start bytes := by
    intro reads h
    rw [readPieces_eq hstart (Nat.zero_le _) h.pieces, h.stream]
  unfold build
  rw [hread h, hread h']

theorem build_of_bytes_split : build (tabulated [] [] []) (fun _ => .ok ()) [some [1,2],some [3]] =
    build (tabulated [] [] []) (fun _ => .ok ()) [some [1],some [2,3]] := by
  apply @build_of_bytes _ _ _ _ [1,2,3]
  · exact ⟨by simp,rfl⟩
  · exact ⟨by simp,rfl⟩

end
end RisuNest.Wire.Segments

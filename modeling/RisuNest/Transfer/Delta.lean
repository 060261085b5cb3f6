import RisuNest.Lib.Framing
import RisuNest.Transfer.Recipe
import RisuNest.Wire.ReferenceTree
import Mathlib.Algebra.Order.BigOperators.Group.List
import Mathlib.Tactic.Ring

/-! The bytes of a recipe, and the recipes of bodies held in memory (`RNSD`, `delta.rs`). -/
namespace RisuNest.Transfer
open Wire

namespace Recipe

/-- `validate_limits`. A sum beyond 64 bits is beyond the limit as well. -/
def validateLimits (maxTarget maxBaseBytes : ℕ) (r : Recipe) : Result Unit := do
  validateHash r.targetHash
  require (r.bases.length ≤ maxBases ∧ r.targetSize ≤ maxTarget ∧ r.ops.length ≤ maxOps)
    ⟨"delta-limit"⟩
  validateBases maxBaseBytes r.bases [] 0
  validateOps r.bases r.targetSize r.ops 0 0

/-! ### What is validated -/

/-- The length of what an operation writes. -/
def opSize : DeltaOp → ℕ
  | .insert bytes => bytes.length
  | .copy _ _ length => length

lemma opSize_of_opLength {bases : List Base} {op : DeltaOp} {n : ℕ}
    (h : opLength bases op = .ok n) : n = opSize op := by
  cases op with
  | insert bytes => exact (Except.ok.inj h).symm
  | copy base offset length =>
    unfold opLength at h
    dsimp only at h
    cases hb : bases[base]? with
    | none =>
      rw [hb] at h
      cases h
    | some source =>
      rw [hb] at h
      dsimp only at h
      split_ifs at h
      exact (Except.ok.inj h).symm

theorem validateBases_eq_ok {limit : ℕ} {bases : List Base} {seen : List String} {sum : ℕ} :
    validateBases limit bases seen sum = .ok () ↔
      (∀ base ∈ bases, validateHash base.hash = .ok () ∧ base.hash ∉ seen) ∧
      (bases.map Base.hash).Nodup ∧ sum + (bases.map Base.size).sum ≤ limit := by
  induction bases generalizing seen sum with
  | nil => simp [validateBases]
  | cons base bases ih =>
    rw [validateBases]
    simp only [bind_eq_ok]
    rw [List.forall_mem_cons, List.map_cons, List.nodup_cons, List.map_cons, List.sum_cons]
    constructor
    · rintro ⟨_,hv,_,hs,h⟩
      obtain ⟨hb,hn,hsum⟩ := ih.mp h
      refine ⟨⟨⟨hv,require_eq_ok.mp hs⟩,fun b hm => ⟨(hb b hm).1,?_⟩⟩,⟨fun hm => ?_,hn⟩,by omega⟩
      · exact fun hseen => (hb b hm).2 (List.mem_cons_of_mem _ hseen)
      · obtain ⟨b,hm,he⟩ := List.mem_map.mp hm
        exact (hb b hm).2 (he ▸ List.mem_cons_self)
    · rintro ⟨⟨⟨hv,hs⟩,hb⟩,⟨hne,hn⟩,hsum⟩
      refine ⟨(),hv,(),require_eq_ok.mpr hs,ih.mpr ⟨fun b hm => ⟨(hb b hm).1,?_⟩,hn,by omega⟩⟩
      rw [List.mem_cons, not_or]
      exact ⟨fun he => hne (he ▸ List.mem_map_of_mem hm),(hb b hm).2⟩

theorem validateOps_eq_ok {bases : List Base} {targetSize : ℕ} {ops : List DeltaOp}
    {output literal : ℕ} : validateOps bases targetSize ops output literal = .ok () ↔
      (∀ op ∈ ops, opLength bases op = .ok (opSize op) ∧ opSize op ≠ 0) ∧
      output + (ops.map opSize).sum = targetSize ∧
      (ops ≠ [] → literal + (ops.map literalLength).sum ≤ maxPatchBytes) := by
  induction ops generalizing output literal with
  | nil => simp [validateOps]
  | cons op ops ih =>
    rw [validateOps]
    simp only [bind_eq_ok, ih, List.map_cons, List.sum_cons, List.forall_mem_cons]
    constructor
    · rintro ⟨n,hn,_,hne,_,hle,ho,hsum,hlit⟩
      obtain rfl := opSize_of_opLength hn
      have hle := require_eq_ok.mp hle
      refine ⟨⟨⟨hn,require_eq_ok.mp hne⟩,ho⟩,by omega,fun _ => ?_⟩
      by_cases hops : ops = []
      · subst hops
        exact hle.2
      · have := hlit hops
        omega
    · rintro ⟨⟨⟨hn,hne⟩,ho⟩,hsum,hlit⟩
      have hlit := hlit (List.cons_ne_nil op ops)
      exact ⟨_,hn,(),require_eq_ok.mpr hne,(),require_eq_ok.mpr (by omega),ho,by omega,
        fun _ => by omega⟩

/-- What a recipe has to be to pass the checks. -/
structure Sound (maxTarget maxBaseBytes : ℕ) (r : Recipe) : Prop where
  target : validateHash r.targetHash = .ok ()
  few : r.bases.length ≤ maxBases
  small : r.targetSize ≤ maxTarget
  short : r.ops.length ≤ maxOps
  bases : ∀ base ∈ r.bases, validateHash base.hash = .ok ()
  distinct : (r.bases.map Base.hash).Nodup
  baseBytes : (r.bases.map Base.size).sum ≤ maxBaseBytes
  ops : ∀ op ∈ r.ops, opLength r.bases op = .ok (opSize op) ∧ opSize op ≠ 0
  size : (r.ops.map opSize).sum = r.targetSize
  literal : (r.ops.map literalLength).sum ≤ maxPatchBytes

theorem validateLimits_eq_ok {maxTarget maxBaseBytes : ℕ} {r : Recipe} :
    r.validateLimits maxTarget maxBaseBytes = .ok () ↔ r.Sound maxTarget maxBaseBytes := by
  unfold validateLimits
  simp only [bind_eq_ok]
  constructor
  · rintro ⟨_,ht,_,hl,_,hbases,hops⟩
    obtain ⟨hb,hn,hsum⟩ := validateBases_eq_ok.mp hbases
    obtain ⟨hops,hsize,hlit⟩ := validateOps_eq_ok.mp hops
    rw [Nat.zero_add] at hsum hsize hlit
    obtain ⟨hfew,hsmall,hshort⟩ := require_eq_ok.mp hl
    refine ⟨ht,hfew,hsmall,hshort,fun b h => (hb b h).1,hn,hsum,hops,hsize,?_⟩
    by_cases ho : r.ops = []
    · rw [ho]
      exact Nat.zero_le _
    · exact hlit ho
  · intro h
    refine ⟨(),h.target,(),require_eq_ok.mpr ⟨h.few,h.small,h.short⟩,(),?_,?_⟩
    · rw [validateBases_eq_ok, Nat.zero_add]
      exact ⟨fun b hb => ⟨h.bases b hb,List.not_mem_nil⟩,h.distinct,h.baseBytes⟩
    · rw [validateOps_eq_ok, Nat.zero_add, Nat.zero_add]
      exact ⟨h.ops,h.size,fun _ => h.literal⟩

/-! ### Writing a recipe -/

/-- `to_be_bytes` of an integer with this many bytes. -/
def toBigEndian : ℕ → ℕ → Bytes
  | 0, _ => []
  | count+1, n => UInt8.ofNat (n/256^count) :: toBigEndian count n

def putHash : List Char → Bytes
  | a :: b :: digest => UInt8.ofNat ((hexByte? [a,b]).getD 0) :: putHash digest
  | _ => []

def putBase (base : Base) : Bytes := putHash base.hash.toList ++ toBigEndian 8 base.size

def putOp : DeltaOp → Bytes
  | .insert bytes => 0 :: (toBigEndian 4 bytes.length ++ bytes)
  | .copy base offset length =>
    1 :: (toBigEndian 1 base ++ (toBigEndian 8 offset ++ toBigEndian 4 length))

/-- The operations after the output so far, whose length is checked after each of them. -/
def putOps : List DeltaOp → Bytes → Result Bytes
  | [], out => .ok out
  | op :: ops, out => do
    let out := out ++ putOp op
    require (out.length ≤ maxPatchBytes) ⟨"delta-limit"⟩
    putOps ops out

def encodeProfile (magic : Bytes) (r : Recipe) : Result Bytes :=
  putOps r.ops (magic ++ putHash r.targetHash.toList ++ toBigEndian 8 r.targetSize ++
    toBigEndian 1 r.bases.length ++ r.bases.flatMap putBase ++ toBigEndian 4 r.ops.length)

/-- `decode_profile` -/
def decodeProfileOf (expected bytes : Bytes) : Result Recipe := do
  require (bytes.length ≤ maxPatchBytes) ⟨"delta-limit"⟩
  let (magic, input) ← takeBytes 4 bytes
  require (magic = expected) ⟨"invalid-magic"⟩
  let (targetHash, input) ← takeHash input
  let (targetSize, input) ← takeNumber 8 input
  let (count, input) ← takeNumber 1 input
  require (count ≤ maxBases) ⟨"delta-limit"⟩
  let (bases, input) ← takeBases count input
  let (count, input) ← takeNumber 4 input
  require (count ≤ maxOps) ⟨"delta-limit"⟩
  let (ops, input) ← takeOps count input
  require (input = []) ⟨"trailing-bytes"⟩
  pure ⟨bases,targetHash,targetSize,ops⟩

/-! ### Numbers -/

lemma foldl_bigEndian (a : ℕ) (bytes : Bytes) :
    bytes.foldl (fun n b => n*256 + b.toNat) a = a*256^bytes.length + bigEndian bytes := by
  unfold bigEndian
  induction bytes generalizing a with
  | nil => simp
  | cons b bytes ih =>
    rw [List.foldl_cons, List.foldl_cons, ih, ih (0*256 + b.toNat), List.length_cons]
    ring

lemma bigEndian_cons (b : UInt8) (bytes : Bytes) :
    bigEndian (b :: bytes) = b.toNat*256^bytes.length + bigEndian bytes := by
  have := foldl_bigEndian (0*256 + b.toNat) bytes
  rw [Nat.zero_mul, Nat.zero_add] at this
  rw [← this]
  change bytes.foldl _ (0*256 + b.toNat) = _
  rw [Nat.zero_mul, Nat.zero_add]

lemma bigEndian_lt (bytes : Bytes) : bigEndian bytes < 256^bytes.length := by
  induction bytes with
  | nil => exact Nat.one_pos
  | cons b bytes ih =>
    have hb : b.toNat + 1 ≤ 256 := b.toNat_lt
    have := Nat.mul_le_mul_right (256^bytes.length) hb
    rw [Nat.add_mul] at this
    rw [bigEndian_cons, List.length_cons, pow_succ']
    omega

@[simp] lemma length_toBigEndian (count n : ℕ) : (toBigEndian count n).length = count := by
  induction count with
  | zero => rfl
  | succ count ih => simp [toBigEndian, ih]

lemma bigEndian_toBigEndian (count n : ℕ) : bigEndian (toBigEndian count n) = n % 256^count := by
  induction count with
  | zero => simp [toBigEndian, bigEndian, Nat.mod_one]
  | succ count ih =>
    have hb : (UInt8.ofNat (n/256^count)).toNat = n/256^count % 256 := UInt8.toNat_ofNat'
    rw [toBigEndian, bigEndian_cons, ih, length_toBigEndian, hb, Nat.mod_pow_succ]
    ring

lemma toBigEndian_add (count a n : ℕ) :
    toBigEndian count (a*256^count + n) = toBigEndian count n := by
  have key : ∀ k, k ≤ count → toBigEndian k (a*256^count + n) = toBigEndian k n := by
    intro k
    induction k with
    | zero => exact fun _ => rfl
    | succ k ih =>
      intro hk
      have hpow : a*256^count = 256^k*(256*(a*256^(count-k-1))) := by
        rw [← Nat.mul_assoc, ← pow_succ, Nat.mul_left_comm, ← pow_add]
        congr 2
        omega
      rw [toBigEndian, toBigEndian, ih (Nat.le_of_succ_le hk), hpow,
        Nat.mul_add_div (Nat.pow_pos (by decide)), List.cons.injEq]
      refine ⟨UInt8.toNat_inj.mp ?_,rfl⟩
      change (256*(a*256^(count-k-1)) + n/256^k) % 256 = n/256^k % 256
      exact Nat.mul_add_mod ..
  exact key count (Nat.le_refl count)

lemma toBigEndian_bigEndian (bytes : Bytes) :
    toBigEndian bytes.length (bigEndian bytes) = bytes := by
  induction bytes with
  | nil => rfl
  | cons b bytes ih =>
    have hdiv : (b.toNat*256^bytes.length + bigEndian bytes)/256^bytes.length = b.toNat := by
      rw [Nat.mul_comm, Nat.mul_add_div (Nat.pow_pos (by decide)),
        Nat.div_eq_of_lt (bigEndian_lt bytes), Nat.add_zero]
    rw [bigEndian_cons, List.length_cons, toBigEndian, hdiv, toBigEndian_add, ih]
    congr 1
    exact UInt8.ofNat_toNat

/-! ### Frames -/

theorem framing_bytes (count : ℕ) :
    Framing (fun bytes => bytes.length = count) (takeBytes count) (fun bytes => bytes) where
  reads := by
    intro bytes h rest
    subst h
    unfold takeBytes
    rw [if_neg (by simp), List.take_left, List.drop_left]
  only := by
    intro input bytes rest h
    unfold takeBytes at h
    split_ifs at h with hlen
    obtain ⟨rfl,rfl⟩ := Prod.mk.inj (Except.ok.inj h)
    exact ⟨List.length_take_of_le (Nat.le_of_not_lt hlen),(List.take_append_drop count input).symm⟩

theorem framing_number (count : ℕ) :
    Framing (fun n => n < 256^count) (takeNumber count) (toBigEndian count) where
  reads := by
    intro n hn rest
    unfold takeNumber
    rw [(framing_bytes count).reads (length_toBigEndian count n)]
    change Except.ok (bigEndian (toBigEndian count n),rest) = _
    rw [bigEndian_toBigEndian, Nat.mod_eq_of_lt hn]
  only := by
    intro input n rest h
    obtain ⟨⟨head,tail⟩,hb,h⟩ := bind_eq_ok.mp h
    obtain ⟨rfl,rfl⟩ := Prod.mk.inj (Except.ok.inj h)
    obtain ⟨rfl,rfl⟩ := (framing_bytes count).only hb
    exact ⟨bigEndian_lt head,by rw [toBigEndian_bigEndian]⟩

lemma hexByte_hexDigit (b : UInt8) :
    hexByte? [hexDigit (b.toNat/16),hexDigit (b.toNat%16)] = some b.toNat ∧
      isHexLower (hexDigit (b.toNat/16)) = true ∧ isHexLower (hexDigit (b.toNat%16)) = true := by
  have key : ∀ n < 16, hexDigit? (hexDigit n) = some n ∧ isHexLower (hexDigit n) = true := by
    decide
  obtain ⟨hhigh,hlh⟩ := key (b.toNat/16) (by have := b.toNat_lt; omega)
  obtain ⟨hlow,hll⟩ := key (b.toNat%16) (Nat.mod_lt _ (by decide))
  refine ⟨?_,hlh,hll⟩
  simp only [hexByte?, hhigh, hlow, Option.bind_eq_bind, Option.bind_some, Option.pure_def,
    Option.some.injEq]
  exact Nat.div_add_mod b.toNat 16

lemma hexDigit_of_isHexLower {c : Char} (h : isHexLower c = true) :
    ∃ n < 16, hexDigit? c = some n ∧ hexDigit n = c := by
  have hc : Char.ofNat c.toNat = c := Char.ofNat_toNat c
  simp only [isHexLower, Bool.or_eq_true, Bool.and_eq_true, decide_eq_true_eq, Char.le_def,
    UInt32.le_iff_toNat_le] at h
  change 48 ≤ c.toNat ∧ c.toNat ≤ 57 ∨ 97 ≤ c.toNat ∧ c.toNat ≤ 102 at h
  rw [← hc]
  obtain ⟨hlow,hhigh⟩ | ⟨hlow,hhigh⟩ := h
  · refine ⟨c.toNat - 48,by omega,?_⟩
    interval_cases c.toNat <;> decide
  · refine ⟨c.toNat - 87,by omega,?_⟩
    interval_cases c.toNat <;> decide

/-- The digits of a digest's bytes. -/
def hexDigits (bytes : Bytes) : List Char :=
  bytes.flatMap fun b => [hexDigit (b.toNat/16),hexDigit (b.toNat%16)]

lemma putHash_hexDigits (bytes : Bytes) : putHash (hexDigits bytes) = bytes := by
  induction bytes with
  | nil => rfl
  | cons b bytes ih =>
    change UInt8.ofNat ((hexByte? [hexDigit (b.toNat/16),hexDigit (b.toNat%16)]).getD 0) ::
      putHash (hexDigits bytes) = _
    rw [(hexByte_hexDigit b).1, ih, Option.getD_some, UInt8.ofNat_toNat]

lemma hexDigits_lower (bytes : Bytes) : (hexDigits bytes).length = 2*bytes.length ∧
    ∀ c ∈ hexDigits bytes, isHexLower c = true := by
  induction bytes with
  | nil => exact ⟨rfl,List.forall_mem_nil _⟩
  | cons b bytes ih =>
    obtain ⟨-,hhigh,hlow⟩ := hexByte_hexDigit b
    change (_ :: _ :: hexDigits bytes).length = _ ∧ ∀ c ∈ _ :: _ :: hexDigits bytes, _
    simp only [List.length_cons, List.forall_mem_cons]
    exact ⟨by omega,hhigh,hlow,ih.2⟩

lemma hexDigits_putHash {n : ℕ} {digest : List Char} (hlen : digest.length = 2*n)
    (h : ∀ c ∈ digest, isHexLower c = true) :
    (putHash digest).length = n ∧ hexDigits (putHash digest) = digest := by
  induction n generalizing digest with
  | zero =>
    obtain rfl := List.length_eq_zero_iff.mp hlen
    exact ⟨rfl,rfl⟩
  | succ n ih =>
    obtain ⟨a,b,digest,rfl⟩ : ∃ a b rest, digest = a :: b :: rest := by
      match digest, hlen with
      | a :: b :: rest, _ => exact ⟨a,b,rest,rfl⟩
    simp only [List.length_cons, List.forall_mem_cons] at hlen h
    obtain ⟨hn,hd⟩ := @ih digest (by omega) h.2.2
    obtain ⟨high,hh16,hh,rfl⟩ := hexDigit_of_isHexLower h.1
    obtain ⟨low,hl16,hl,rfl⟩ := hexDigit_of_isHexLower h.2.1
    have hbyte : (hexByte? [hexDigit high,hexDigit low]).getD 0 = 16*high + low := by
      simp only [hexByte?, hh, hl, Option.bind_eq_bind, Option.bind_some, Option.pure_def,
        Option.getD_some]
    have hval : (UInt8.ofNat (16*high + low)).toNat = 16*high + low := by
      rw [UInt8.toNat_ofNat']
      omega
    have hq : (16*high + low)/16 = high := by omega
    have hr : (16*high + low)%16 = low := by omega
    change (UInt8.ofNat ((hexByte? [_,_]).getD 0) :: putHash digest).length = n+1 ∧
      hexDigits (UInt8.ofNat ((hexByte? [_,_]).getD 0) :: putHash digest) = _
    rw [hbyte]
    refine ⟨congrArg Nat.succ hn,?_⟩
    change hexDigit ((UInt8.ofNat (16*high + low)).toNat/16) ::
      hexDigit ((UInt8.ofNat (16*high + low)).toNat%16) :: hexDigits (putHash digest) = _
    rw [hval, hq, hr, hd]

lemma validateHash_eq_ok {digest : String} : validateHash digest = .ok () ↔
    digest.toList.length = 64 ∧ ∀ c ∈ digest.toList, isHexLower c = true := by
  unfold validateHash
  split_ifs with h
  · simp only [Bool.and_eq_true, decide_eq_true_eq, List.all_eq_true] at h
    exact ⟨fun _ => h,fun _ => rfl⟩
  · simp only [Bool.and_eq_true, decide_eq_true_eq, List.all_eq_true] at h
    exact ⟨nofun,fun hn => absurd hn h⟩

theorem framing_hash :
    Framing (fun digest => validateHash digest = .ok ()) takeHash
      (fun digest => putHash digest.toList) where
  reads := by
    intro digest h rest
    obtain ⟨hlen,hlower⟩ := validateHash_eq_ok.mp h
    obtain ⟨hn,hd⟩ := hexDigits_putHash (n := 32) hlen hlower
    unfold takeHash
    rw [(framing_bytes 32).reads hn]
    change Except.ok (String.ofList (hexDigits (putHash digest.toList)),rest) = _
    rw [hd, String.ofList_toList]
  only := by
    intro input digest rest h
    obtain ⟨⟨head,tail⟩,hb,h⟩ := bind_eq_ok.mp h
    obtain ⟨rfl,rfl⟩ := Prod.mk.inj (Except.ok.inj h)
    obtain ⟨hlen,rfl⟩ := (framing_bytes 32).only hb
    obtain ⟨hlen',hlower⟩ := hexDigits_lower head
    change validateHash (String.ofList (hexDigits head)) = .ok () ∧
      head ++ tail = putHash (String.ofList (hexDigits head)).toList ++ tail
    rw [validateHash_eq_ok, String.toList_ofList, putHash_hexDigits]
    exact ⟨⟨by omega,hlower⟩,rfl⟩

/-- `Base` as it is read. -/
def takeBase (input : Bytes) : Result (Base × Bytes) := do
  let (digest, input) ← takeHash input
  let (size, input) ← takeNumber 8 input
  pure (⟨digest,size⟩,input)

theorem framing_base :
    Framing (fun base => validateHash base.hash = .ok () ∧ base.size < 256^8) takeBase putBase where
  reads := by
    intro base h rest
    rw [putBase, List.append_assoc]
    refine bind_eq_ok.mpr ⟨_,framing_hash.reads h.1 _,?_⟩
    exact bind_eq_ok.mpr ⟨_,(framing_number 8).reads h.2 rest,rfl⟩
  only := by
    intro input base rest h
    obtain ⟨⟨digest,mid⟩,hd,h⟩ := bind_eq_ok.mp h
    obtain ⟨⟨size,tail⟩,hs,h⟩ := bind_eq_ok.mp h
    obtain ⟨rfl,rfl⟩ := Prod.mk.inj (Except.ok.inj h)
    obtain ⟨hvalid,rfl⟩ := framing_hash.only hd
    obtain ⟨hsize,rfl⟩ := (framing_number 8).only hs
    exact ⟨⟨hvalid,hsize⟩,(List.append_assoc ..).symm⟩

/-- The widths an operation is written with. -/
def OpFits : DeltaOp → Prop
  | .insert bytes => bytes.length < 256^4
  | .copy base offset length => base < 256^1 ∧ offset < 256^8 ∧ length < 256^4

theorem framing_op : Framing OpFits takeOp putOp where
  reads := by
    intro op h rest
    cases op with
    | insert bytes =>
      have hk : takeNumber 1 (putOp (.insert bytes) ++ rest) =
          .ok (0,toBigEndian 4 bytes.length ++ (bytes ++ rest)) := by
        rw [← List.append_assoc]
        exact (framing_number 1).reads (x := 0) (by decide) _
      refine bind_eq_ok.mpr ⟨_,hk,?_⟩
      refine (if_pos rfl).trans (bind_eq_ok.mpr ⟨_,(framing_number 4).reads h _,?_⟩)
      exact bind_eq_ok.mpr ⟨_,(framing_bytes bytes.length).reads rfl rest,rfl⟩
    | copy base offset length =>
      obtain ⟨hb,ho,hl⟩ := h
      have hk : takeNumber 1 (putOp (.copy base offset length) ++ rest) =
          .ok (1,toBigEndian 1 base ++ (toBigEndian 8 offset ++ (toBigEndian 4 length ++ rest))) := by
        rw [← List.append_assoc (toBigEndian 8 offset), ← List.append_assoc (toBigEndian 1 base)]
        exact (framing_number 1).reads (x := 1) (by decide) _
      refine bind_eq_ok.mpr ⟨_,hk,(if_neg Nat.one_ne_zero).trans ((if_pos rfl).trans ?_)⟩
      refine bind_eq_ok.mpr ⟨_,(framing_number 1).reads hb _,?_⟩
      refine bind_eq_ok.mpr ⟨_,(framing_number 8).reads ho _,?_⟩
      exact bind_eq_ok.mpr ⟨_,(framing_number 4).reads hl rest,rfl⟩
  only := by
    intro input op rest hr
    obtain ⟨⟨kind,input⟩,hk,h⟩ := bind_eq_ok.mp hr
    obtain ⟨-,rfl⟩ := (framing_number 1).only hk
    change (if kind = 0 then _ else if kind = 1 then _ else _) = _ at h
    split_ifs at h with h0 h1
    · subst h0
      obtain ⟨⟨length,input⟩,hl,h⟩ := bind_eq_ok.mp h
      obtain ⟨⟨bytes,tail⟩,hb,h⟩ := bind_eq_ok.mp h
      obtain ⟨rfl,rfl⟩ := Prod.mk.inj (Except.ok.inj h)
      obtain ⟨hlen,rfl⟩ := (framing_number 4).only hl
      obtain ⟨rfl,rfl⟩ := (framing_bytes length).only hb
      refine ⟨hlen,?_⟩
      change (0 : UInt8) :: (_ ++ (bytes ++ tail)) = 0 :: ((_ ++ bytes) ++ tail)
      rw [List.append_assoc]
    · subst h1
      obtain ⟨⟨base,input⟩,hb,h⟩ := bind_eq_ok.mp h
      obtain ⟨⟨offset,input⟩,ho,h⟩ := bind_eq_ok.mp h
      obtain ⟨⟨length,tail⟩,hl,h⟩ := bind_eq_ok.mp h
      obtain ⟨rfl,rfl⟩ := Prod.mk.inj (Except.ok.inj h)
      obtain ⟨hbase,rfl⟩ := (framing_number 1).only hb
      obtain ⟨hoffset,rfl⟩ := (framing_number 8).only ho
      obtain ⟨hlength,rfl⟩ := (framing_number 4).only hl
      refine ⟨⟨hbase,hoffset,hlength⟩,?_⟩
      change (1 : UInt8) :: (_ ++ (_ ++ (_ ++ tail))) = 1 :: ((_ ++ (_ ++ _)) ++ tail)
      rw [List.append_assoc, List.append_assoc]

lemma takeBases_eq (count : ℕ) (input : Bytes) : takeBases count input = readMany takeBase count input := by
  induction count generalizing input with
  | zero => rfl
  | succ count ih =>
    simp only [takeBases, readMany, takeBase, ih, bind_assoc, pure_bind]

lemma takeOps_eq (count : ℕ) (input : Bytes) : takeOps count input = readMany takeOp count input := by
  induction count generalizing input with
  | zero => rfl
  | succ count ih => simp only [takeOps, readMany, ih]

/-! ### The whole recipe -/

/-- The operations are written one after another, and the length so far stays within the limit. -/
theorem putOps_eq_ok {ops : List DeltaOp} {out bytes : Bytes} : putOps ops out = .ok bytes ↔
    bytes = out ++ ops.flatMap putOp ∧ (ops ≠ [] → bytes.length ≤ maxPatchBytes) := by
  induction ops generalizing out with
  | nil =>
    rw [putOps, List.flatMap_nil, List.append_nil, Except.ok.injEq]
    exact ⟨fun h => ⟨h.symm,fun hn => absurd rfl hn⟩,fun h => h.1.symm⟩
  | cons op ops ih =>
    simp only [putOps, bind_eq_ok, ih]
    rw [List.flatMap_cons, ← List.append_assoc]
    constructor
    · rintro ⟨_,hle,rfl,h⟩
      refine ⟨rfl,fun _ => ?_⟩
      by_cases ho : ops = []
      · subst ho
        rw [List.flatMap_nil, List.append_nil]
        exact require_eq_ok.mp hle
      · exact h ho
    · rintro ⟨rfl,h⟩
      have hle := h (List.cons_ne_nil op ops)
      refine ⟨(),require_eq_ok.mpr ?_,rfl,fun _ => hle⟩
      rw [List.length_append] at hle
      exact Nat.le_trans (Nat.le_add_right _ _) hle

/-- What is written before the operations. -/
def header (magic : Bytes) (r : Recipe) : Bytes :=
  magic ++ putHash r.targetHash.toList ++ toBigEndian 8 r.targetSize ++
    toBigEndian 1 r.bases.length ++ r.bases.flatMap putBase ++ toBigEndian 4 r.ops.length

/-- The widths a recipe is written with. -/
structure Fits (r : Recipe) : Prop where
  hash : validateHash r.targetHash = .ok ()
  size : r.targetSize < 256^8
  few : r.bases.length ≤ maxBases
  bases : ∀ base ∈ r.bases, validateHash base.hash = .ok () ∧ base.size < 256^8
  short : r.ops.length ≤ maxOps
  ops : ∀ op ∈ r.ops, OpFits op

lemma length_putHash {digest : String} (h : validateHash digest = .ok ()) :
    (putHash digest.toList).length = 32 := by
  obtain ⟨hlen,hlower⟩ := validateHash_eq_ok.mp h
  exact (hexDigits_putHash (n := 32) hlen hlower).1

lemma length_putBases {bases : List Base} (h : ∀ base ∈ bases, validateHash base.hash = .ok ()) :
    (bases.flatMap putBase).length = bases.length*40 := by
  induction bases with
  | nil => rfl
  | cons base bases ih =>
    obtain ⟨hbase,hbases⟩ := List.forall_mem_cons.mp h
    rw [List.flatMap_cons, List.length_append, ih hbases, putBase, List.length_append,
      length_putHash hbase, length_toBigEndian, List.length_cons]
    omega

lemma length_header (magic : Bytes) (hm : magic.length = 4) {r : Recipe}
    (hd : validateHash r.targetHash = .ok ())
    (hb : ∀ base ∈ r.bases, validateHash base.hash = .ok ()) :
    (r.header magic).length = r.bases.length*40 + 49 := by
  simp only [header, List.length_append, length_toBigEndian, hm, length_putBases hb,
    length_putHash hd]
  omega

/-- What fits is read back from what was written. -/
theorem decodeProfileOf_encodeProfile {magic bytes : Bytes} (hm : magic.length = 4) {r : Recipe}
    (hr : r.Fits) (h : r.encodeProfile magic = .ok bytes) :
    decodeProfileOf magic bytes = .ok r := by
  obtain ⟨hbytes,hlen⟩ := putOps_eq_ok.mp h
  have hmax : bytes.length ≤ maxPatchBytes := by
    by_cases ho : r.ops = []
    · have hl : bytes.length = r.bases.length*40 + 49 := by
        rw [hbytes, ho, List.flatMap_nil, List.append_nil,
          ← length_header magic hm hr.hash fun base hb => (hr.bases base hb).1, header, ho]
      have hfew : r.bases.length ≤ 4 := hr.few
      rw [hl]
      exact Nat.le_trans (by omega : _ ≤ 209) (by decide)
    · exact hlen ho
  refine bind_eq_ok.mpr ⟨(),require_eq_ok.mpr hmax,?_⟩
  rw [hbytes]
  simp only [List.append_assoc]
  refine bind_eq_ok.mpr ⟨_,(framing_bytes 4).reads hm _,?_⟩
  refine bind_eq_ok.mpr ⟨(),require_eq_ok.mpr rfl,?_⟩
  refine bind_eq_ok.mpr ⟨_,framing_hash.reads hr.hash _,?_⟩
  refine bind_eq_ok.mpr ⟨_,(framing_number 8).reads hr.size _,?_⟩
  have hcount : r.bases.length < 256^1 := Nat.lt_of_le_of_lt hr.few (by decide)
  refine bind_eq_ok.mpr ⟨_,(framing_number 1).reads hcount _,?_⟩
  refine bind_eq_ok.mpr ⟨(),require_eq_ok.mpr hr.few,?_⟩
  rw [takeBases_eq]
  refine bind_eq_ok.mpr ⟨_,(framing_base.many r.bases.length).reads ⟨rfl,hr.bases⟩ _,?_⟩
  have hops : r.ops.length < 256^4 := Nat.lt_of_le_of_lt hr.short (by decide)
  refine bind_eq_ok.mpr ⟨_,(framing_number 4).reads hops _,?_⟩
  refine bind_eq_ok.mpr ⟨(),require_eq_ok.mpr hr.short,?_⟩
  have hread := (framing_op.many r.ops.length).reads ⟨rfl,hr.ops⟩ []
  rw [List.append_nil, ← takeOps_eq] at hread
  refine bind_eq_ok.mpr ⟨_,hread,?_⟩
  exact bind_eq_ok.mpr ⟨(),require_eq_ok.mpr rfl,rfl⟩

/-- What is read was written from what was read. -/
theorem encodeProfile_decodeProfileOf {magic bytes : Bytes} {r : Recipe}
    (h : decodeProfileOf magic bytes = .ok r) : r.encodeProfile magic = .ok bytes := by
  obtain ⟨_,hmax,h⟩ := bind_eq_ok.mp h
  obtain ⟨⟨head,input⟩,hm,h⟩ := bind_eq_ok.mp h
  obtain ⟨_,hmagic,h⟩ := bind_eq_ok.mp h
  obtain ⟨⟨targetHash,input⟩,hd,h⟩ := bind_eq_ok.mp h
  obtain ⟨⟨targetSize,input⟩,hs,h⟩ := bind_eq_ok.mp h
  obtain ⟨⟨count,input⟩,hc,h⟩ := bind_eq_ok.mp h
  obtain ⟨_,-,h⟩ := bind_eq_ok.mp h
  obtain ⟨⟨bases,input⟩,hb,h⟩ := bind_eq_ok.mp h
  obtain ⟨⟨opCount,input⟩,hn,h⟩ := bind_eq_ok.mp h
  obtain ⟨_,-,h⟩ := bind_eq_ok.mp h
  obtain ⟨⟨ops,input⟩,ho,h⟩ := bind_eq_ok.mp h
  obtain ⟨_,hend,h⟩ := bind_eq_ok.mp h
  obtain rfl := Except.ok.inj h
  obtain rfl := require_eq_ok.mp hend
  obtain rfl := require_eq_ok.mp hmagic
  rw [takeBases_eq] at hb
  rw [takeOps_eq] at ho
  obtain ⟨⟨rfl,-⟩,rfl⟩ := (framing_op.many opCount).only ho
  obtain ⟨-,rfl⟩ := (framing_number 4).only hn
  obtain ⟨⟨rfl,-⟩,rfl⟩ := (framing_base.many count).only hb
  obtain ⟨-,rfl⟩ := (framing_number 1).only hc
  obtain ⟨-,rfl⟩ := (framing_number 8).only hs
  obtain ⟨-,rfl⟩ := framing_hash.only hd
  obtain ⟨-,rfl⟩ := (framing_bytes 4).only hm
  refine putOps_eq_ok.mpr ⟨?_,fun _ => require_eq_ok.mp hmax⟩
  simp only [List.append_assoc, List.append_nil]

lemma Sound.base_size_le {maxTarget maxBaseBytes : ℕ} {r : Recipe}
    (h : r.Sound maxTarget maxBaseBytes) {base : Base} (hb : base ∈ r.bases) :
    base.size ≤ maxBaseBytes :=
  Nat.le_trans (List.single_le_sum (fun _ _ => Nat.zero_le _) _ (List.mem_map_of_mem hb))
    h.baseBytes

/-- A sound recipe under 64-bit limits is one the format has room for. -/
theorem Sound.fits {maxTarget maxBaseBytes : ℕ} {r : Recipe} (h : r.Sound maxTarget maxBaseBytes)
    (ht : maxTarget < 256^8) (hb : maxBaseBytes < 256^8)
    (hcopy : ∀ base offset length, .copy base offset length ∈ r.ops → length < 256^4) : r.Fits where
  hash := h.target
  size := Nat.lt_of_le_of_lt h.small ht
  few := h.few
  bases := fun base hm => ⟨h.bases base hm,Nat.lt_of_le_of_lt (h.base_size_le hm) hb⟩
  short := h.short
  ops := by
    intro op hop
    cases op with
    | insert bytes =>
      have hle : bytes.length ≤ maxPatchBytes :=
        Nat.le_trans (List.single_le_sum (fun _ _ => Nat.zero_le _) _
          (List.mem_map_of_mem (f := literalLength) hop)) h.literal
      exact Nat.lt_of_le_of_lt hle (by decide)
    | copy base offset length =>
      have hl := (h.ops _ hop).1
      unfold opLength at hl
      dsimp only at hl
      cases hs : r.bases[base]? with
      | none =>
        rw [hs] at hl
        cases hl
      | some source =>
        rw [hs] at hl
        dsimp only at hl
        split_ifs at hl with hle
        have hbase : base < maxBases :=
          Nat.lt_of_lt_of_le (List.getElem?_eq_some_iff.mp hs).1 h.few
        have hsize := h.base_size_le (List.mem_of_getElem? hs)
        exact ⟨Nat.lt_trans hbase (by decide),by omega,hcopy base offset length hop⟩

end Recipe

/-! ### Recipes of bodies held in memory -/
namespace Delta

def maxTargetBytes : ℕ := 16*1024*1024
def maxBaseBytes : ℕ := 32*1024*1024

/-- `RNSD` -/
def magic : Bytes := [82,78,83,68]

def validate (r : Recipe) : Result Unit := r.validateLimits maxTargetBytes maxBaseBytes

/-- The length an operation is written in. -/
def opLen : DeltaOp → ℕ
  | .insert bytes => bytes.length + 5
  | .copy _ _ _ => 14

/-- The operations after a length so far, which is checked after each of them. -/
def opsLen : List DeltaOp → ℕ → Result ℕ
  | [], length => .ok length
  | op :: ops, length => do
    require (length + opLen op ≤ maxPatchBytes) ⟨"delta-limit"⟩
    opsLen ops (length + opLen op)

def encodedLen (r : Recipe) : Result ℕ := do
  validate r
  opsLen r.ops (r.bases.length*40 + 49)

def encode (r : Recipe) : Result Bytes := do
  validate r
  r.encodeProfile magic

def decode (bytes : Bytes) : Result Recipe := do
  let recipe ← Recipe.decodeProfileOf magic bytes
  validate recipe
  pure recipe

lemma fits_of_validate {r : Recipe} (h : validate r = .ok ()) : r.Fits := by
  have hs := Recipe.validateLimits_eq_ok.mp h
  refine hs.fits (by decide) (by decide) fun base offset length hop => ?_
  have hle : length ≤ (r.ops.map Recipe.opSize).sum :=
    List.single_le_sum (fun _ _ => Nat.zero_le _) _ (List.mem_map_of_mem (f := Recipe.opSize) hop)
  rw [hs.size] at hle
  exact Nat.lt_of_le_of_lt (Nat.le_trans hle hs.small) (by decide)

theorem decode_encode {r : Recipe} {bytes : Bytes} (h : encode r = .ok bytes) :
    decode bytes = .ok r := by
  obtain ⟨_,hv,h⟩ := bind_eq_ok.mp h
  have hd := Recipe.decodeProfileOf_encodeProfile rfl (fits_of_validate hv) h
  exact bind_eq_ok.mpr ⟨r,hd,bind_eq_ok.mpr ⟨(),hv,rfl⟩⟩

theorem encode_decode {r : Recipe} {bytes : Bytes} (h : decode bytes = .ok r) :
    encode r = .ok bytes := by
  obtain ⟨recipe,hd,h⟩ := bind_eq_ok.mp h
  obtain ⟨_,hv,h⟩ := bind_eq_ok.mp h
  obtain rfl := Except.ok.inj h
  exact bind_eq_ok.mpr ⟨(),hv,Recipe.encodeProfile_decodeProfileOf hd⟩

lemma length_putOp (op : DeltaOp) : (Recipe.putOp op).length = opLen op := by
  cases op with
  | insert bytes =>
    simp only [Recipe.putOp, opLen, List.length_cons, List.length_append, Recipe.length_toBigEndian]
    omega
  | copy base offset length =>
    simp only [Recipe.putOp, opLen, List.length_cons, List.length_append, Recipe.length_toBigEndian]

lemma opsLen_eq_ok {ops : List DeltaOp} {out : Bytes} {n : ℕ} :
    opsLen ops out.length = .ok n ↔ ∃ bytes, Recipe.putOps ops out = .ok bytes ∧ bytes.length = n := by
  induction ops generalizing out with
  | nil =>
    simp only [opsLen, Recipe.putOps, Except.ok.injEq]
    exact ⟨fun h => ⟨out,rfl,h⟩,fun ⟨bytes,h,hn⟩ => by rw [h, hn]⟩
  | cons op ops ih =>
    have hlen : (out ++ Recipe.putOp op).length = out.length + opLen op := by
      rw [List.length_append, length_putOp]
    rw [opsLen, Recipe.putOps]
    simp only [bind_eq_ok, ← hlen, ih]
    constructor
    · rintro ⟨_,hr,bytes,hb,hn⟩
      exact ⟨bytes,⟨(),hr,hb⟩,hn⟩
    · rintro ⟨bytes,⟨_,hr,hb⟩,hn⟩
      exact ⟨(),hr,bytes,hb,hn⟩

/-- The length is known beforehand. -/
lemma encodedLen_eq_ok {r : Recipe} {n : ℕ} :
    encodedLen r = .ok n ↔ ∃ bytes, encode r = .ok bytes ∧ bytes.length = n := by
  unfold encodedLen encode
  simp only [bind_eq_ok]
  constructor
  · rintro ⟨_,hv,h⟩
    have hf := fits_of_validate hv
    rw [← Recipe.length_header magic rfl hf.hash fun b hb => (hf.bases b hb).1] at h
    obtain ⟨bytes,hb,hn⟩ := opsLen_eq_ok.mp h
    exact ⟨bytes,⟨(),hv,hb⟩,hn⟩
  · rintro ⟨bytes,⟨_,hv,hb⟩,hn⟩
    have hf := fits_of_validate hv
    refine ⟨(),hv,?_⟩
    rw [← Recipe.length_header magic rfl hf.hash fun b hb => (hf.bases b hb).1]
    exact opsLen_eq_ok.mpr ⟨bytes,hb,hn⟩

/-- Recipes in memory are written and read exactly, and the length is known beforehand. -/
theorem rnsd_exact :
    (∀ r bytes, encode r = .ok bytes → decode bytes = .ok r) ∧
    (∀ bytes r, decode bytes = .ok r → encode r = .ok bytes) ∧
    ∀ r n, encodedLen r = .ok n ↔ ∃ bytes, encode r = .ok bytes ∧ bytes.length = n :=
  ⟨fun _ _ => decode_encode,fun _ _ => encode_decode,fun _ _ => encodedLen_eq_ok⟩

end Delta
end RisuNest.Transfer

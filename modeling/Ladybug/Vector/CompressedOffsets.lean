import Ladybug.Vector.HnswRelBatchInsert

/-!
# The buffer of the neighbours (`vector/src/index/hnsw_graph.cpp`)

The width of an entry follows from the number of nodes; the largest value of the width is the mark of an
entry that is not set.  `numNodes + 1` and the number of bytes are 64-bit and wrap.
-/

namespace Ladybug.Vector

open List

/-! ## 1. The buffer -/

/-- `dstNodes` are the entries in the memory of the buffer. -/
structure CompressedNodeOffsetBuffer where
  width : Nat
  dstNodes : List UInt64

namespace CompressedNodeOffsetBuffer

def getInvalidOffset (b : CompressedNodeOffsetBuffer) : UInt64 := UInt64.ofNat (2 ^ (8 * b.width) - 1)

def getNodeOffset (b : CompressedNodeOffsetBuffer) (csrOffset : UInt64) : Option UInt64 :=
  b.dstNodes[csrOffset.toNat]?

/-- The cast to the type of an entry; there is no memory outside the buffer. -/
def setNodeOffset (b : CompressedNodeOffsetBuffer) (csrOffset nodeOffset : UInt64) :
    Option CompressedNodeOffsetBuffer :=
  if csrOffset.toNat < b.dstNodes.length then
    let entry := UInt64.ofNat (nodeOffset.toNat % 2 ^ (8 * b.width))
    some { b with dstNodes := b.dstNodes.set csrOffset.toNat entry }
  else none

def setNodeOffsetToInvalid (b : CompressedNodeOffsetBuffer) (csrOffset : UInt64) :
    Option CompressedNodeOffsetBuffer :=
  b.setNodeOffset csrOffset b.getInvalidOffset

/-- The stores of a loop, one behind the other. -/
def setRange (b : CompressedNodeOffsetBuffer) (startOffset : UInt64) :
    List UInt64 → Option CompressedNodeOffsetBuffer
  | [] => some b
  | nodeOffset :: rest => do
    let b ← b.setNodeOffset startOffset nodeOffset
    b.setRange (startOffset + 1) rest

/-- An entry through `CompressedOffsetSpan`; `INVALID_OFFSET` is 2^64 - 1. -/
def spanAt (b : CompressedNodeOffsetBuffer) (offset : UInt64) : Option UInt64 :=
  (b.getNodeOffset offset).map fun val => if val = b.getInvalidOffset then -1 else val

/-- The constructor.  The memory is not initialised; `none` is `UNREACHABLE_CODE`. -/
def ofNumNodes (memory : Nat → UInt64) (numNodes maxDegree : UInt64) :
    Option CompressedNodeOffsetBuffer :=
  let numEntries := numNodes * maxDegree
  let width := minNumBytesToStore (numNodes + 1).toNat
  if width ∈ [8, 4, 2, 1] then
    some ⟨width, (range ((numEntries * UInt64.ofNat width).toNat / width)).map memory⟩
  else none

end CompressedNodeOffsetBuffer

open CompressedNodeOffsetBuffer

inductive Call
  | setNodeOffset (csrOffset nodeOffset : UInt64)
  | setNodeOffsetToInvalid (csrOffset : UInt64)
  | setRange (startOffset : UInt64) (nodeOffsets : List UInt64)
  | getNodeOffset (csrOffset : UInt64)

def Call.exec (b : CompressedNodeOffsetBuffer) : Call → Option CompressedNodeOffsetBuffer
  | setNodeOffset p o => b.setNodeOffset p o
  | setNodeOffsetToInvalid p => b.setNodeOffsetToInvalid p
  | setRange p os => b.setRange p os
  | getNodeOffset p => (b.getNodeOffset p).map fun _ => b

/-! ## 2. What the buffer is for -/

/-- The entries are numbered below `numEntries`, the nodes below `numNodes`. -/
def Call.Allowed (numNodes numEntries : UInt64) : Call → Prop
  | setNodeOffset p o => p < numEntries ∧ o < numNodes
  | setNodeOffsetToInvalid p => p < numEntries
  | setRange p os => p.toNat + os.length ≤ numEntries.toNat ∧ ∀ o ∈ os, o < numNodes
  | getNodeOffset p => p < numEntries

def rangeStores : UInt64 → List UInt64 → List (UInt64 × UInt64)
  | _, [] => []
  | p, o :: os => (p, o) :: rangeStores (p + 1) os

def Call.stores (invalid : UInt64) : Call → List (UInt64 × UInt64)
  | setNodeOffset p o => [(p, o)]
  | setNodeOffsetToInvalid p => [(p, invalid)]
  | setRange p os => rangeStores p os
  | getNodeOffset _ => []

def lastStored (invalid : UInt64) (calls : List Call) (csrOffset : UInt64) : Option UInt64 :=
  (calls.flatMap (Call.stores invalid)).reverse.lookup csrOffset

/-- No offset is the mark, and after every run of calls an entry is what was stored in it last. -/
def Keeps (memory : Nat → UInt64) (numNodes maxDegree : UInt64) : Prop :=
  ∃ b, ofNumNodes memory numNodes maxDegree = some b ∧
    (∀ o < numNodes, o ≠ b.getInvalidOffset) ∧
    ∀ calls : List Call, (∀ c ∈ calls, c.Allowed numNodes (numNodes * maxDegree)) →
      ∃ b', calls.foldlM Call.exec b = some b' ∧
        ∀ p o, lastStored b.getInvalidOffset calls p = some o → b'.getNodeOffset p = some o ∧
          b'.spanAt p = some (if o = b.getInvalidOffset then -1 else o)

/-! ## 3. The width -/

def bytesFor (value : Nat) : Nat :=
  if value < 2 ^ 8 then 1 else if value < 2 ^ 16 then 2 else if value < 2 ^ 32 then 4 else 8

variable {memory : Nat → UInt64} {numNodes maxDegree : UInt64}
  {b b' : CompressedNodeOffsetBuffer} {n w : Nat} {p o : UInt64} {os : List UInt64}
  {ss : List (UInt64 × UInt64)} {calls : List Call}

theorem minNumBytesToStore_eq (h : n < 2 ^ 64) : minNumBytesToStore n = bytesFor n := by
  have hsize : n.size ≤ 64 := Nat.size_le.mpr h
  have hceil : ∀ k ≤ 8,
      2 ^ Nat.clog 2 k = if k ≤ 1 then 1 else if k ≤ 2 then 2 else if k ≤ 4 then 4 else 8 := by
    decide +kernel
  unfold minNumBytesToStore bytesFor
  rw [hceil _ (by omega)]
  simp only [← Nat.size_le]
  split_ifs <;> omega

theorem bytesFor_mem (n : Nat) : bytesFor n ∈ [8, 4, 2, 1] := by
  unfold bytesFor
  split_ifs <;> decide

theorem lt_pow_bytesFor (h : n < 2 ^ 64) : n < 2 ^ (8 * bytesFor n) := by
  unfold bytesFor
  split_ifs <;> assumption

theorem ofNumNodes_eq (hw : bytesFor (numNodes + 1).toNat = w) :
    ofNumNodes memory numNodes maxDegree =
      some ⟨w, (range ((numNodes * maxDegree).toNat * w % 2 ^ 64 / w)).map memory⟩ := by
  have hmem := hw ▸ bytesFor_mem (numNodes + 1).toNat
  have hsmall : w < 2 ^ 64 := by
    have hall : ∀ w ∈ [8, 4, 2, 1], w < 2 ^ 64 := by decide
    exact hall w hmem
  unfold ofNumNodes
  rw [minNumBytesToStore_eq (numNodes + 1).toNat_lt, hw, if_pos hmem, UInt64.toNat_mul, UInt64.toNat_ofNat_of_lt' hsmall]

/-! ## 4. Stores -/

/-- The buffer holds what `ss` says, the last store first. -/
structure CompressedNodeOffsetBuffer.Holds (b : CompressedNodeOffsetBuffer) (n w : Nat)
    (ss : List (UInt64 × UInt64)) : Prop where
  width : b.width = w
  length : b.dstNodes.length = n
  last : ∀ p o, ss.lookup p = some o → b.getNodeOffset p = some o

namespace CompressedNodeOffsetBuffer

theorem Holds.setNodeOffset (h : b.Holds n w ss) (hp : p.toNat < n) (ho : o.toNat < 2 ^ (8 * w)) :
    ∃ b', b.setNodeOffset p o = some b' ∧ b'.Holds n w ((p, o) :: ss) := by
  have hlen : p.toNat < b.dstNodes.length := h.length.symm ▸ hp
  have hentry : UInt64.ofNat (o.toNat % 2 ^ (8 * b.width)) = o := by
    rw [h.width, Nat.mod_eq_of_lt ho, UInt64.ofNat_toNat]
  refine ⟨_, if_pos hlen, h.width, length_set.trans h.length, ?_⟩
  intro q v hv
  show (b.dstNodes.set p.toNat _)[q.toNat]? = some v
  rw [lookup_cons] at hv
  by_cases hq : q = p
  · subst hq
    rw [getElem?_set_self hlen, hentry]
    simpa using hv
  · rw [getElem?_set_ne fun heq => hq (UInt64.toNat_inj.mp heq.symm)]
    rw [beq_eq_false_iff_ne.mpr hq] at hv
    exact h.last q v hv

theorem Holds.setRange (h : b.Holds n w ss) (hp : p.toNat + os.length ≤ n) (hn : n < 2 ^ 64)
    (hos : ∀ o ∈ os, o.toNat < 2 ^ (8 * w)) :
    ∃ b', b.setRange p os = some b' ∧ b'.Holds n w ((rangeStores p os).reverse ++ ss) := by
  induction os generalizing b p ss with
  | nil => exact ⟨b, rfl, h⟩
  | cons o os ih =>
    rw [length_cons] at hp
    obtain ⟨b', hset, h'⟩ := h.setNodeOffset (show p.toNat < n by omega) (hos o mem_cons_self)
    have hnext : (p + 1).toNat = p.toNat + 1 := by
      rw [UInt64.toNat_add]
      exact Nat.mod_eq_of_lt (show p.toNat + 1 < 2 ^ 64 by omega)
    obtain ⟨b'', hrest, h''⟩ := ih h' (show (p + 1).toNat + _ ≤ n by omega)
      fun o ho => hos o (mem_cons_of_mem _ ho)
    refine ⟨b'', ?_, ?_⟩
    · unfold CompressedNodeOffsetBuffer.setRange
      rw [hset]
      exact hrest
    · rw [rangeStores, reverse_cons, append_assoc]
      exact h''

end CompressedNodeOffsetBuffer

theorem invalid_toNat (hw : w ≤ 8) : (UInt64.ofNat (2 ^ (8 * w) - 1)).toNat = 2 ^ (8 * w) - 1 := by
  have hpow : 2 ^ (8 * w) ≤ 2 ^ 64 := Nat.pow_le_pow_right (by decide) (show 8 * w ≤ 64 by omega)
  exact UInt64.toNat_ofNat_of_lt' (show 2 ^ (8 * w) - 1 < 2 ^ 64 by omega)

section

variable {numEntries : UInt64} {c : Call} (hw : w ≤ 8) (hfits : ∀ o < numNodes, o.toNat < 2 ^ (8 * w))

include hw hfits

theorem Call.exec_holds (h : b.Holds numEntries.toNat w ss) (hc : c.Allowed numNodes numEntries) :
    ∃ b', c.exec b = some b' ∧
      b'.Holds numEntries.toNat w ((c.stores (UInt64.ofNat (2 ^ (8 * w) - 1))).reverse ++ ss) := by
  cases c with
  | setNodeOffset p o => exact h.setNodeOffset (UInt64.lt_iff_toNat_lt.mp hc.1) (hfits o hc.2)
  | setNodeOffsetToInvalid p =>
    have hinvalid := invalid_toNat hw
    have hpos := Nat.two_pow_pos (8 * w)
    have hset := h.setNodeOffset (UInt64.lt_iff_toNat_lt.mp hc)
      (show (UInt64.ofNat (2 ^ (8 * w) - 1)).toNat < _ by omega)
    rw [← h.width] at hset ⊢
    exact hset
  | setRange p os => exact h.setRange hc.1 numEntries.toNat_lt fun o ho => hfits o (hc.2 o ho)
  | getNodeOffset p =>
    have hlen : p.toNat < b.dstNodes.length := h.length.symm ▸ UInt64.lt_iff_toNat_lt.mp hc
    refine ⟨b, ?_, h⟩
    show (b.dstNodes[p.toNat]?).map _ = _
    rw [getElem?_eq_getElem hlen]
    rfl

/-- By induction on the calls. -/
theorem exec_holds (h : b.Holds numEntries.toNat w ss) (hall : ∀ c ∈ calls, c.Allowed numNodes numEntries) :
    ∃ b', calls.foldlM Call.exec b = some b' ∧ b'.Holds numEntries.toNat w
      ((calls.flatMap (Call.stores (UInt64.ofNat (2 ^ (8 * w) - 1)))).reverse ++ ss) := by
  induction calls generalizing b ss with
  | nil => exact ⟨b, rfl, h⟩
  | cons c calls ih =>
    obtain ⟨b', hexec, h'⟩ := Call.exec_holds hw hfits h (hall c mem_cons_self)
    obtain ⟨b'', hrest, h''⟩ := ih h' fun c hc => hall c (mem_cons_of_mem _ hc)
    refine ⟨b'', ?_, ?_⟩
    · rw [foldlM_cons, hexec]
      exact hrest
    · rw [flatMap_cons, reverse_append, append_assoc]
      exact h''

end

/-! ## 5. When the buffer keeps the offsets -/

variable (memory numNodes maxDegree) in
/-- The buffer is right except where `numNodes + 1` or the number of bytes wraps. -/
theorem keeps_iff : Keeps memory numNodes maxDegree ↔ numNodes.toNat + 1 < 2 ^ 64 ∧
    (numNodes * maxDegree).toNat * bytesFor (numNodes.toNat + 1) < 2 ^ 64 := by
  have hsucc : (numNodes + 1).toNat = (numNodes.toNat + 1) % 2 ^ 64 := UInt64.toNat_add numNodes 1
  have hone := numNodes.toNat_lt
  obtain ⟨w, hw⟩ : ∃ w, bytesFor (numNodes + 1).toNat = w := ⟨_, rfl⟩
  have hb := @ofNumNodes_eq memory _ maxDegree _ hw
  have hw8 : 0 < w ∧ w ≤ 8 := by
    have hall : ∀ w ∈ [8, 4, 2, 1], 0 < w ∧ w ≤ 8 := by decide
    exact hall w (hw ▸ bytesFor_mem _)
  constructor
  · rintro ⟨b, hnew, hinvalid, hruns⟩
    rw [hb] at hnew
    cases hnew
    have hno : numNodes.toNat + 1 < 2 ^ 64 := by
      by_contra hmax
      -- the width of 0 is 1, and 255 is the offset of a node
      have hzero : (numNodes + 1).toNat = 0 := by omega
      rw [hzero] at hw
      subst hw
      exact hinvalid 255 (UInt64.lt_iff_toNat_lt.mpr (show 255 < numNodes.toNat by omega)) rfl
    refine ⟨hno, ?_⟩
    rw [Nat.mod_eq_of_lt hno] at hsucc
    rw [← hsucc, hw]
    by_contra hwraps
    obtain ⟨e, he⟩ : ∃ e, numNodes * maxDegree = e := ⟨_, rfl⟩
    rw [he] at hwraps hruns
    have hepos : 0 < e.toNat := Nat.pos_of_ne_zero fun hzero => hwraps (by rw [hzero]; omega)
    have hnodes : 0 < numNodes := by
      by_contra hnone
      have hzero : numNodes = 0 := UInt64.le_zero_iff.mp (UInt64.not_lt.mp hnone)
      rw [hzero, UInt64.zero_mul] at he
      exact absurd hepos (by rw [← he]; decide)
    -- the last entry is outside the memory
    have hlast : (e - 1).toNat = e.toNat - 1 := by
      have hle : (1 : UInt64) ≤ e := UInt64.le_iff_toNat_le.mpr hepos
      exact UInt64.toNat_sub_of_le e 1 hle
    obtain ⟨b', hexec, -⟩ := hruns [.setNodeOffset (e - 1) 0] fun c hc =>
      mem_singleton.mp hc ▸ ⟨UInt64.lt_iff_toNat_lt.mpr (by omega), hnodes⟩
    have hcells : e.toNat * w % 2 ^ 64 / w < e.toNat :=
      Nat.div_lt_of_lt_mul ((Nat.mod_lt _ (by decide)).trans_le (by rw [Nat.mul_comm]; omega))
    simp only [foldlM_cons, Call.exec, CompressedNodeOffsetBuffer.setNodeOffset, length_map,
      length_range, hlast] at hexec
    rw [if_neg (by omega)] at hexec
    cases hexec
  · rintro ⟨hno, hbytes⟩
    rw [Nat.mod_eq_of_lt hno] at hsucc
    rw [← hsucc, hw] at hbytes
    have hfit : numNodes.toNat + 1 < 2 ^ (8 * w) := hsucc ▸ hw ▸ lt_pow_bytesFor (numNodes + 1).toNat_lt
    rw [Nat.mod_eq_of_lt hbytes, Nat.mul_div_cancel _ hw8.1] at hb
    have hfits : ∀ o < numNodes, o.toNat < 2 ^ (8 * w) - 1 := by
      intro o ho
      have hlt := UInt64.lt_iff_toNat_lt.mp ho
      omega
    have hinvalid : ∀ o < numNodes, o ≠ UInt64.ofNat (2 ^ (8 * w) - 1) := by
      rintro o ho rfl
      exact absurd (invalid_toNat hw8.2) (hfits _ ho).ne
    have hstart : Holds ⟨w, (range (numNodes * maxDegree).toNat).map memory⟩
        (numNodes * maxDegree).toNat w [] :=
      ⟨rfl, (length_map _).trans length_range, fun p o hno => by cases hno⟩
    refine ⟨_, hb, hinvalid, ?_⟩
    intro calls hall
    obtain ⟨b', hexec, h⟩ :=
      exec_holds hw8.2 (fun o ho => (hfits o ho).trans_le (Nat.sub_le _ 1)) hstart hall
    rw [append_nil] at h
    refine ⟨b', hexec, ?_⟩
    intro p o hstored
    have hget := h.last p o hstored
    refine ⟨hget, ?_⟩
    unfold spanAt getInvalidOffset
    rw [hget, h.width]
    rfl

/-- With 2^64 - 1 nodes the sum is 0 and an entry has one byte. -/
theorem offset_is_mark : ¬ ∀ memory numNodes maxDegree, Keeps memory numNodes maxDegree := by
  intro h
  obtain ⟨b, hnew, hinvalid, -⟩ := h (fun _ => 0) 18446744073709551615 1
  have hw : bytesFor ((18446744073709551615 : UInt64) + 1).toNat = 1 := by decide
  rw [ofNumNodes_eq hw] at hnew
  cases hnew
  exact hinvalid 255 (by decide) rfl

end Ladybug.Vector

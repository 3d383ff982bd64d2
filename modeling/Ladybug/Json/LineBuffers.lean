import Ladybug.Json.Lines

/-!
# The buffers of a file of lines

Buffer `k` begins where the first `k` buffers of the full size end.  The thread that has it puts the
line together that its start cuts, and parses the lines that it holds whole.
-/

namespace Ladybug.JsonScan

open Markup List

variable {Doc : Type} {parser : Parser Doc} {params : Params}

theorem previousNewLineFrom_le (data : Bytes) (ptr : Nat) : previousNewLineFrom data ptr ≤ ptr := by
  induction ptr with
  | zero => exact Nat.le_refl 0
  | succ ptr ih =>
    unfold previousNewLineFrom
    split
    · exact Nat.le_refl _
    · omega

variable {data back : Bytes} {k j : Nat}

theorem previousNewLineFrom_newline {pos : Nat} (hpos : data[pos]? = some newline) (ptr : Nat)
    (hle : pos ≤ ptr) (hno : ∀ j, pos < j → j ≤ ptr → data[j]? ≠ some newline) :
    previousNewLineFrom data ptr = pos := by
  induction ptr with
  | zero =>
    have hzero : pos = 0 := Nat.le_zero.mp hle
    rw [hzero]
    rfl
  | succ ptr ih =>
    unfold previousNewLineFrom
    by_cases heq : pos = ptr + 1
    · rw [← heq, if_pos hpos]
    · rw [if_neg (hno (ptr + 1) (by omega) (Nat.le_refl _))]
      exact ih (by omega) fun j hj hj' => hno j hj (by omega)

theorem previousNewLineFrom_none (ptr : Nat) (hno : ∀ j, 0 < j → j ≤ ptr → data[j]? ≠ some newline) :
    previousNewLineFrom data ptr = 0 := by
  induction ptr with
  | zero => rfl
  | succ ptr ih =>
    unfold previousNewLineFrom
    rw [if_neg (hno (ptr + 1) (Nat.succ_pos ptr) (Nat.le_refl _))]
    exact ih fun j hj hj' => hno j hj (by omega)

theorem getElem?_ne_newline {text : Bytes} (h : newline ∉ text) (j : Nat) :
    text[j]? ≠ some newline :=
  fun hj => h (mem_of_getElem? hj)

theorem previousNewLine_newline (front : Bytes) (hback : newline ∉ back) :
    previousNewLine (front ++ newline :: back) = front.length := by
  apply previousNewLineFrom_newline
  · rw [getElem?_append_right (Nat.le_refl _), Nat.sub_self]
    rfl
  · rw [length_append, length_cons]
    omega
  · intro j hj _
    rw [getElem?_append_right (by omega),
      show j - front.length = (j - front.length - 1) + 1 by omega, getElem?_cons_succ]
    exact getElem?_ne_newline hback _

theorem previousNewLine_none (h : newline ∉ data) : previousNewLine data = 0 :=
  previousNewLineFrom_none _ fun j _ _ => getElem?_ne_newline h j

/-- What the next buffer's thread copies. -/
def lastPart (data : Bytes) : Bytes := data.drop (previousNewLine data)

theorem lastPart_newline (front : Bytes) (hback : newline ∉ back) :
    lastPart (front ++ newline :: back) = newline :: back := by
  unfold lastPart
  rw [previousNewLine_newline front hback, drop_left]

theorem lastPart_none (h : newline ∉ data) : lastPart data = data := by
  unfold lastPart
  rw [previousNewLine_none h, drop_zero]

/-- Memory of the same size that agrees with the buffer from its last newline on. -/
structure SameEnd (data original : Bytes) : Prop where
  length : data.length = original.length
  behind : data.drop (previousNewLine original) = lastPart original

theorem SameEnd.refl (data : Bytes) : SameEnd data data := ⟨rfl, rfl⟩

theorem SameEnd.lastPart {original : Bytes} (h : SameEnd data original) :
    lastPart data = lastPart original := by
  rcases last_newline original with hno | ⟨front, back, rfl, hback⟩
  · have hbehind := h.behind
    rw [previousNewLine_none hno, drop_zero, lastPart_none hno] at hbehind
    rw [hbehind]
  · have hbehind := h.behind
    rw [previousNewLine_newline front hback, lastPart_newline front hback] at hbehind
    have hdata : data = data.take front.length ++ newline :: back := by
      rw [← hbehind, take_append_drop]
    rw [hdata, lastPart_newline _ hback, lastPart_newline front hback]

/-- The bytes of the file that fit in a buffer. -/
def Params.dataSize (params : Params) : Nat := params.capacity - paddingSize

theorem Params.dataSize_pos (params : Params) : 0 < params.dataSize :=
  Nat.sub_pos_of_lt params.room

def buffer (params : Params) (k : Nat) : Bytes :=
  (params.file.drop (k * params.dataSize)).take params.dataSize

def numBuffers (params : Params) : Nat :=
  (params.file.length + params.dataSize - 1) / params.dataSize

theorem lt_numBuffers_iff (params : Params) (k : Nat) :
    k < numBuffers params ↔ k * params.dataSize < params.file.length := by
  have hpos := params.dataSize_pos
  unfold numBuffers
  rw [Nat.lt_iff_add_one_le, Nat.le_div_iff_mul_le hpos, Nat.add_mul, Nat.one_mul]
  omega

theorem buffer_eq_nil_iff (params : Params) (k : Nat) :
    buffer params k = [] ↔ numBuffers params ≤ k := by
  have hpos := params.dataSize_pos
  have hlt := lt_numBuffers_iff params k
  unfold buffer
  rw [take_eq_nil_iff, drop_eq_nil_iff]
  omega

theorem file_split (params : Params) (k : Nat) : params.file.drop (k * params.dataSize)
      = buffer params k ++ params.file.drop ((k + 1) * params.dataSize) := by
  unfold buffer
  rw [Nat.add_mul, Nat.one_mul, ← drop_drop, take_append_drop]

theorem next_part {b position : Nat}
    (hposition : position = min (b * params.dataSize) params.file.length) :
    (params.file.drop position).take (min params.dataSize (params.file.length - position))
        = buffer params b
      ∧ position + min params.dataSize (params.file.length - position)
        = min ((b + 1) * params.dataSize) params.file.length
      ∧ ((min params.dataSize (params.file.length - position) == 0) = true
        ↔ buffer params b = []) := by
  have hpos := params.dataSize_pos
  have hlt := lt_numBuffers_iff params b
  have hmul : (b + 1) * params.dataSize = b * params.dataSize + params.dataSize := by
    rw [Nat.add_mul, Nat.one_mul]
  refine ⟨?_, ?_, ?_⟩
  · unfold buffer
    by_cases hfull : b * params.dataSize < params.file.length
    · rw [Nat.min_eq_left (Nat.le_of_lt hfull)] at hposition
      rw [hposition, ← length_drop, take_eq_take_min, Nat.min_assoc, Nat.min_self,
        ← take_eq_take_min]
    · rw [drop_eq_nil_of_le (by omega), drop_eq_nil_of_le (by omega)]
      simp
  · omega
  · rw [beq_iff_eq, buffer_eq_nil_iff]
    omega

/-- The end of buffer `k` cuts its last line well: the line that it cuts is not blank, it ends in the
next buffer, and with the newlines around it there is room for it; where the file ends there, its
last value is read whatever the memory behind it holds.  A buffer of one byte holds no value. -/
structure CutsWell (params : Params) (parser : Parser Doc) (k : Nat) : Prop where
  single : (buffer params k).length = 1 → (buffer params k).all isBlank = true
  ended : (lastPart (buffer params k)).length ≠ 1 → buffer params (k + 1) ≠ [] →
    ∃ line rest, buffer params (k + 1) = line ++ newline :: rest ∧ newline ∉ line
      ∧ (lastPart (buffer params k) ++ line).all isBlank = false
      ∧ (lastPart (buffer params k)).length + (line.length + 1) ≤ params.dataSize
  last : (lastPart (buffer params k)).length ≠ 1 → buffer params (k + 1) = [] →
    (lastPart (buffer params k)).all isBlank = false
      ∧ ∀ after, parser.read (lastPart (buffer params k)) after
          = parser.read (lastPart (buffer params k)) padding

/-- The documents that the thread emits that has the buffer. -/
def bufferDocs (params : Params) (parser : Parser Doc) : Nat → List Doc
  | 0 => completeDocs parser (buffer params 0)
  | k + 1 =>
    if (lastPart (buffer params k)).length = 1 then completeDocs parser (buffer params (k + 1))
    else
      match nextNewLine (buffer params (k + 1)) with
      | none => (lineDoc parser (lastPart (buffer params k))).toList
      | some pos =>
        (lineDoc parser (lastPart (buffer params k) ++ (buffer params (k + 1)).take pos)).toList
          ++ completeDocs parser ((buffer params (k + 1)).drop (pos + 1))

theorem bufferDocs_succ (params : Params) (parser : Parser Doc) (k : Nat) :
    bufferDocs params parser (k + 1)
      = if (lastPart (buffer params k)).length = 1 then completeDocs parser (buffer params (k + 1))
        else
          match nextNewLine (buffer params (k + 1)) with
          | none => (lineDoc parser (lastPart (buffer params k))).toList
          | some pos =>
            (lineDoc parser (lastPart (buffer params k) ++ (buffer params (k + 1)).take pos)).toList
              ++ completeDocs parser ((buffer params (k + 1)).drop (pos + 1)) := rfl

/-- How the thread gets them. -/
inductive Emits (params : Params) (parser : Parser Doc) : Nat → List Doc → Prop
  | whole {k : Nat} : (∀ j, k = j + 1 → (lastPart (buffer params j)).length = 1) →
      ValidComplete parser (buffer params k) →
        Emits params parser k (completeDocs parser (buffer params k))
  | cut {k : Nat} {line rest : Bytes} {doc : Doc} : (lastPart (buffer params k)).length ≠ 1 →
      buffer params (k + 1) = line ++ newline :: rest → newline ∉ line →
      (lastPart (buffer params k)).length + (line.length + 1) ≤ params.dataSize →
      (∀ after, parseJson parser (lastPart (buffer params k) ++ (line ++ [newline])) after
        (lastPart (buffer params k) ++ (line ++ [newline])).length = .ok doc) →
      ValidComplete parser rest → Emits params parser (k + 1) (doc :: completeDocs parser rest)
  | last {k : Nat} {doc : Doc} : (lastPart (buffer params k)).length ≠ 1 →
      buffer params (k + 1) = [] →
      (∀ after, parseJson parser (lastPart (buffer params k)) after
        (lastPart (buffer params k)).length = .ok doc) → Emits params parser (k + 1) [doc]

theorem lines_skips {front text : Bytes} (hfront : front.all isBlank = true)
    (h : ValidLines parser (front ++ text)) :
    ValidLines parser text ∧ docsOf parser (front ++ text) = docsOf parser text := by
  induction front with
  | nil => exact ⟨h, rfl⟩
  | cons c front ih =>
    rw [all_cons, Bool.and_eq_true] at hfront
    obtain ⟨hrest, hdocs⟩ := lines_skip hfront.1 h
    obtain ⟨hvalid, hdocs'⟩ := ih hfront.2 hrest
    exact ⟨hvalid, hdocs.trans hdocs'⟩

theorem carry_exists (text rest : Bytes) (h : ValidLines parser (text ++ rest)) :
    ∃ carry, newline ∉ carry ∧ ValidComplete parser text ∧ ValidLines parser (carry ++ rest)
      ∧ docsOf parser (text ++ rest) = completeDocs parser text ++ docsOf parser (carry ++ rest)
      ∧ ((newline ∉ text ∧ carry = text) ∨ ∃ front, text = front ++ newline :: carry) := by
  rcases last_newline text with hno | ⟨front, back, rfl, hback⟩
  · refine ⟨text, hno, validComplete_of_notMem hno, h, ?_, .inl ⟨hno, rfl⟩⟩
    rw [completeDocs_of_notMem hno]
    rfl
  · rw [append_assoc, cons_append, validLines_newline] at h
    refine ⟨back, hback, ?_, h.2, ?_, .inr ⟨front, rfl⟩⟩
    · rw [validComplete_newline]
      exact ⟨h.1, validComplete_of_notMem hback⟩
    · rw [append_assoc, cons_append, docsOf_newline, completeDocs_newline,
        completeDocs_of_notMem hback, append_nil]

/-- The file up to buffer `k` is emitted, but for the line that its start cuts. -/
structure Carried (params : Params) (parser : Parser Doc) (k : Nat) (carry : Bytes) : Prop where
  inLine : newline ∉ carry
  valid : ValidLines parser (carry ++ params.file.drop (k * params.dataSize))
  docs : docsOf parser params.file = (range k).flatMap (bufferDocs params parser)
    ++ docsOf parser (carry ++ params.file.drop (k * params.dataSize))
  start : k = 0 → carry = []
  link : ∀ j, k = j + 1 → lastPart (buffer params j) = newline :: carry
    ∨ (newline ∉ buffer params j ∧ carry = buffer params j)

theorem carried_start (h : ValidLines parser params.file) : Carried params parser 0 [] where
  inLine := not_mem_nil
  valid := by simpa using h
  docs := by simp
  start := fun _ => rfl
  link := nofun

variable {carry : Bytes}

/-- What is left of a line that a buffer end cuts is blank where the next thread does not look at
it. -/
theorem Carried.blank_of_single (h : Carried params parser k carry)
    (hsingle : ∀ j, k = j + 1 → (lastPart (buffer params j)).length = 1 ∧ CutsWell params parser j) :
    carry.all isBlank = true := by
  cases k with
  | zero => rw [h.start rfl]; rfl
  | succ j =>
    obtain ⟨hlen, hcut⟩ := hsingle j rfl
    rcases h.link j rfl with hlast | ⟨hno, rfl⟩
    · rw [hlast, length_cons] at hlen
      have hnil : carry = [] := length_eq_zero_iff.mp (by omega)
      rw [hnil]
      rfl
    · rw [lastPart_none hno] at hlen
      exact hcut.single hlen

theorem Carried.line_of_cut {j : Nat} {carry line : Bytes}
    (hlink : lastPart (buffer params j) = newline :: carry ∨ lastPart (buffer params j) = carry)
    (hvalid : ValidLine parser (carry ++ line))
    (hvalue : (lastPart (buffer params j) ++ line).all isBlank = false) :
    ∃ front value back doc, lastPart (buffer params j) ++ line = front ++ (value ++ back)
      ∧ front.all isBlank = true ∧ back.all isBlank = true ∧ parser.Reads value doc
      ∧ lineDoc parser (carry ++ line) = some doc
      ∧ lineDoc parser (lastPart (buffer params j) ++ line) = some doc := by
  obtain ⟨doc, hline⟩ := hvalid
  have hline' : IsLine parser (lastPart (buffer params j) ++ line) doc := by
    rcases hlink with hlast | hlast
    · rw [hlast]
      exact hline.cons (by decide)
    · rw [hlast]
      exact hline
  have hdoc := hline.doc
  have hdoc' := hline'.doc
  generalize htext : lastPart (buffer params j) ++ line = text at hline' hvalue hdoc'
  cases hline' with
  | blank hblank => rw [hblank] at hvalue; cases hvalue
  | @value front value back doc hfront hback hreads =>
    exact ⟨front, value, back, doc, rfl, hfront, hback, hreads, hdoc, hdoc'⟩

theorem nextNewLine_line {line : Bytes} (hline : newline ∉ line) (rest : Bytes) :
    nextNewLine (line ++ newline :: rest) = some line.length := by
  unfold nextNewLine
  rw [findIdx?_append, findIdx?_eq_none_iff.mpr, findIdx?_cons]
  · simp
  · intro c hc
    exact beq_eq_false_iff_ne.mpr fun heq => hline (heq ▸ hc)

theorem Carried.next_whole (h : Carried params parser k carry) (hblank : carry.all isBlank = true)
    (hsingle : ∀ j, k = j + 1 → (lastPart (buffer params j)).length = 1) :
    Emits params parser k (bufferDocs params parser k)
      ∧ ∃ carry', Carried params parser (k + 1) carry' := by
  have hdocs : bufferDocs params parser k = completeDocs parser (buffer params k) := by
    cases k with
    | zero => rfl
    | succ j =>
      rw [bufferDocs_succ, if_pos (hsingle j rfl)]
  obtain ⟨hvalid, hskip⟩ := lines_skips hblank h.valid
  rw [file_split] at hvalid
  obtain ⟨carry', hinLine, hcomplete, hrest, hsum, hend⟩ := carry_exists _ _ hvalid
  refine ⟨hdocs ▸ .whole hsingle hcomplete, carry', ?_⟩
  exact {
    inLine := hinLine
    valid := hrest
    docs := by
      rw [h.docs, hskip, file_split, hsum, range_succ, flatMap_append,
        flatMap_singleton, hdocs, append_assoc]
    start := fun h0 => absurd h0 (Nat.succ_ne_zero k)
    link := by
      intro j hj
      obtain rfl : k = j := Nat.succ.inj hj
      rcases hend with ⟨hno, hcarry⟩ | ⟨front, hfront⟩
      · exact .inr ⟨hno, hcarry⟩
      · left
        rw [hfront, lastPart_newline front hinLine] }

section

variable (hlaw : parser.Lawful) (h : Carried params parser (j + 1) carry)
  (hcut : CutsWell params parser j) (hlen : (lastPart (buffer params j)).length ≠ 1)

include hlaw h hcut hlen

theorem Carried.next_cut (hnext : buffer params (j + 1) ≠ []) :
    Emits params parser (j + 1) (bufferDocs params parser (j + 1))
      ∧ ∃ carry', Carried params parser (j + 2) carry' := by
  obtain ⟨line, rest, hbuffer, hline, hvalue, hfits⟩ := hcut.ended hlen hnext
  have hlink : lastPart (buffer params j) = newline :: carry ∨ lastPart (buffer params j) = carry := by
    rcases h.link j rfl with hlast | ⟨hno, hcarry⟩
    · exact .inl hlast
    · right
      rw [lastPart_none hno, hcarry]
  have hno : newline ∉ carry ++ line := by
    rw [mem_append, not_or]
    exact ⟨h.inLine, hline⟩
  have hfile : carry ++ params.file.drop ((j + 1) * params.dataSize)
      = (carry ++ line) ++ newline :: (rest ++ params.file.drop ((j + 2) * params.dataSize)) := by
    rw [file_split, hbuffer]
    simp
  have hvalid := h.valid
  rw [hfile, validLines_newline, validLines_of_notMem hno] at hvalid
  obtain ⟨front, value, back, doc, htext, hfront, hback, hreads, hdoc, hdoc'⟩ :=
    Carried.line_of_cut hlink hvalid.1 hvalue
  have hdocs : bufferDocs params parser (j + 1) = doc :: completeDocs parser rest := by
    rw [bufferDocs_succ, if_neg hlen, hbuffer, nextNewLine_line hline]
    show (lineDoc parser (_ ++ (line ++ newline :: rest).take line.length)).toList
      ++ completeDocs parser ((line ++ newline :: rest).drop (line.length + 1)) = _
    rw [take_left, hdoc', append_cons, show line.length + 1 = (line ++ [newline]).length by simp,
      drop_left]
    rfl
  -- the newline at the end of the line ends its value, too
  have hparse : ∀ after, parseJson parser (lastPart (buffer params j) ++ (line ++ [newline])) after
      (lastPart (buffer params j) ++ (line ++ [newline])).length = .ok doc := by
    intro after
    have hwhole : lastPart (buffer params j) ++ (line ++ [newline])
        = front ++ (value ++ (back ++ [newline])) := by
      rw [← append_assoc, htext]
      simp
    have hblank : (back ++ [newline]).all isBlank = true := by
      rw [all_append, hback]
      decide
    have hread := parseJson_line hlaw hfront hblank hreads [] after
      (by rw [append_nil]; exact delimited_of_blank hblank) (by simp)
    rw [append_nil] at hread
    rw [hwhole]
    exact hread
  obtain ⟨carry', hinLine, hcomplete, hrest, hsum, hend⟩ := carry_exists _ _ hvalid.2
  refine ⟨hdocs ▸ .cut hlen hbuffer hline hfits hparse hcomplete, carry', ?_⟩
  exact {
    inLine := hinLine
    valid := hrest
    docs := by
      rw [h.docs, hfile, docsOf_newline, docsOf_of_notMem hno, hdoc, hsum,
        @range_succ (j + 1), flatMap_append, flatMap_singleton, hdocs]
      simp only [Option.toList_some, append_assoc, cons_append, nil_append]
    start := fun h0 => absurd h0 (Nat.succ_ne_zero _)
    link := by
      intro i hi
      obtain rfl : j + 1 = i := Nat.succ.inj hi
      left
      rcases hend with ⟨hnone, rfl⟩ | ⟨front', rfl⟩
      · rw [hbuffer, lastPart_newline line hnone]
      · rw [hbuffer, ← cons_append, ← append_assoc, lastPart_newline _ hinLine] }

theorem Carried.next_last (hnext : buffer params (j + 1) = []) :
    Emits params parser (j + 1) (bufferDocs params parser (j + 1)) ∧ docsOf parser params.file
        = (range (j + 2)).flatMap (bufferDocs params parser) := by
  obtain ⟨hvalue, hread⟩ := hcut.last hlen hnext
  have hlink : lastPart (buffer params j) = newline :: carry ∨ lastPart (buffer params j) = carry := by
    rcases h.link j rfl with hlast | ⟨hno, hcarry⟩
    · exact .inl hlast
    · right
      rw [lastPart_none hno, hcarry]
  have hfile : params.file.drop ((j + 1) * params.dataSize) = [] := by
    have hlt := lt_numBuffers_iff params (j + 1)
    rw [buffer_eq_nil_iff] at hnext
    exact drop_eq_nil_iff.mpr (by omega)
  have hvalid := h.valid
  have hdocs := h.docs
  rw [hfile, append_nil] at hvalid hdocs
  rw [validLines_of_notMem h.inLine] at hvalid
  obtain ⟨front, value, back, doc, htext, hfront, hback, hreads, hdoc, hdoc'⟩ :=
    @Carried.line_of_cut Doc parser params j carry [] hlink (by rwa [append_nil])
      (by rwa [append_nil])
  rw [append_nil] at htext hdoc hdoc'
  have hbuffer : bufferDocs params parser (j + 1) = [doc] := by
    rw [bufferDocs_succ, if_neg hlen, hnext]
    rw [hdoc']
    rfl
  constructor
  · rw [hbuffer]
    apply Emits.last hlen hnext
    intro after
    have hpad : parser.read (front ++ (value ++ back)) after
        = .ok (doc, front.length + value.length) := by
      rw [← htext, hread after, htext]
      exact hreads.read front back padding hfront (delimited_of_blank hback) fun _ => prefix_rfl
    have hparse : parseJson parser (front ++ (value ++ (back ++ []))) after
        (front ++ (value ++ back)).length = .ok doc :=
      parseJson_of_read hlaw hback (by rwa [append_nil])
    rw [append_nil] at hparse
    rw [htext]
    exact hparse
  · rw [hdocs, @range_succ (j + 1), flatMap_append, flatMap_singleton, hbuffer,
      docsOf_of_notMem h.inLine, hdoc]
    rfl

end

theorem buffers_emit (hlaw : parser.Lawful) (hfile : ValidLines parser params.file)
    (hcuts : ∀ k < numBuffers params, CutsWell params parser k) :
    (∀ k ≤ numBuffers params, Emits params parser k (bufferDocs params parser k))
      ∧ docsOf parser params.file
        = (range (numBuffers params + 1)).flatMap (bufferDocs params parser) := by
  have hcarried : ∀ k ≤ numBuffers params, (∃ carry, Carried params parser k carry)
      ∧ ∀ i < k, Emits params parser i (bufferDocs params parser i) := by
    intro k
    induction k with
    | zero => exact fun _ => ⟨⟨[], carried_start hfile⟩, fun i hi => absurd hi (Nat.not_lt_zero i)⟩
    | succ k ih =>
      intro hk
      obtain ⟨⟨carry, hcarry⟩, hemits⟩ := ih (by omega)
      have hnext : Emits params parser k (bufferDocs params parser k)
          ∧ ∃ carry', Carried params parser (k + 1) carry' := by
        by_cases hsingle : ∀ j, k = j + 1 → (lastPart (buffer params j)).length = 1
        · apply hcarry.next_whole _ hsingle
          exact hcarry.blank_of_single fun j hj => ⟨hsingle j hj, hcuts j (by omega)⟩
        · obtain ⟨j, hj⟩ := not_forall.mp hsingle
          obtain ⟨rfl, hlen⟩ := Classical.not_imp.mp hj
          apply hcarry.next_cut hlaw (hcuts j (by omega)) hlen
          rw [Ne, buffer_eq_nil_iff]
          omega
      refine ⟨hnext.2, fun i hi => ?_⟩
      by_cases heq : i = k
      · rw [heq]
        exact hnext.1
      · exact hemits i (by omega)
  obtain ⟨⟨carry, hcarry⟩, hemits⟩ := hcarried (numBuffers params) (Nat.le_refl _)
  have hempty : buffer params (numBuffers params) = [] :=
    (buffer_eq_nil_iff params _).mpr (Nat.le_refl _)
  have hlast : Emits params parser (numBuffers params) (bufferDocs params parser (numBuffers params))
      ∧ docsOf parser params.file
        = (range (numBuffers params + 1)).flatMap (bufferDocs params parser) := by
    by_cases hsingle : ∀ j, numBuffers params = j + 1 → (lastPart (buffer params j)).length = 1
    · have hblank := hcarry.blank_of_single fun j hj => ⟨hsingle j hj, hcuts j (by omega)⟩
      obtain ⟨hemit, carry', hcarry'⟩ := hcarry.next_whole hblank hsingle
      refine ⟨hemit, ?_⟩
      have hdrop : params.file.drop ((numBuffers params + 1) * params.dataSize) = [] := by
        have hlt := lt_numBuffers_iff params (numBuffers params + 1)
        exact drop_eq_nil_iff.mpr (by omega)
      have hnil : carry' = [] := by
        rcases hcarry'.link _ rfl with hnewline | ⟨-, hcarry⟩
        · rw [hempty, lastPart_none not_mem_nil] at hnewline
          cases hnewline
        · rw [hcarry, hempty]
      rw [hcarry'.docs, hdrop, hnil]
      exact append_nil _
    · obtain ⟨j, hj⟩ := not_forall.mp hsingle
      obtain ⟨hm, hlen⟩ := Classical.not_imp.mp hj
      rw [hm] at hcarry hempty ⊢
      exact hcarry.next_last hlaw (hcuts j (by omega)) hlen hempty
  refine ⟨fun k hk => ?_, hlast.2⟩
  by_cases heq : k = numBuffers params
  · rw [heq]
    exact hlast.1
  · exact hemits k (by omega)

end Ladybug.JsonScan

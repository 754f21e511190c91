import Mathlib.Data.List.Basic

/-!
# The captured output of a process

`captureProgressLines` reads a stream line by line and keeps the tail of it in a buffer of
bounded size. A line ends with a line feed, a carriage return or both; the buffer gets a
line feed for each. A line keeps only its first bytes.

*Tail.*  What was fed to a buffer, and what it says of it, is kept by every line
(`Fed.writeCaptured`) and so by the whole stream (`fed_captureProgressLines`).

*Defect.*  A chunk as large as the buffer is compared with the bytes that were read, not
with those that were kept. A first line that fills the buffer to the last byte and ends
with a carriage return and a line feed is called truncated.
-/

namespace HyperFileLens.Agent.ProcessOutput

/-! ## The buffer -/

structure BoundedTailBuffer where
  limit : Nat
  data : List UInt8 := []
  total : Nat := 0
  truncated : Bool := false

def newBoundedTailBuffer (limit : Int) : BoundedTailBuffer := { limit := (max 0 limit).toNat }

namespace BoundedTailBuffer

variable (b : BoundedTailBuffer)

def appendTail (p : List UInt8) : BoundedTailBuffer :=
  if b.limit = 0 then { b with truncated := b.truncated || 0 < p.length }
  else if b.limit ≤ p.length then
    { b with
      data := p.drop (p.length - b.limit)
      truncated := b.truncated || b.limit < b.total }
  else if b.limit < b.data.length + p.length then
    { b with
      data := b.data.drop (b.data.length + p.length - b.limit) ++ p
      truncated := true }
  else { b with data := b.data ++ p }

def writeCaptured (p : List UInt8) (rawBytes : Nat) (contentTruncated : Bool) :
    BoundedTailBuffer :=
  let b := { b with total := b.total + rawBytes }.appendTail p
  { b with truncated := b.truncated || contentTruncated }

end BoundedTailBuffer

/-! ## Lines -/

def streamLineLimit : Nat := 1024 * 1024

def lineFeed : UInt8 := 10

def carriageReturn : UInt8 := 13

structure ProgressLine where
  line : List UInt8
  rawBytes : Nat
  truncated : Bool
  terminated : Bool
  /-- The stream is over, or broken. -/
  ended : Bool

/-- `readProgressLine`, with what is left of the stream. -/
def readProgressLine (out : List UInt8) (rawBytes : Nat) (truncated : Bool) :
    List UInt8 → ProgressLine × List UInt8
  | [] => (⟨out, rawBytes, truncated, false, true⟩, [])
  | b :: stream =>
    if b = carriageReturn then
      if stream.head? = some lineFeed then
        (⟨out, rawBytes + 2, truncated, true, false⟩, stream.tail)
      else (⟨out, rawBytes + 1, truncated, true, false⟩, stream)
    else if b = lineFeed then (⟨out, rawBytes + 1, truncated, true, false⟩, stream)
    else if out.length < streamLineLimit then
      readProgressLine (out ++ [b]) (rawBytes + 1) truncated stream
    else readProgressLine out (rawBytes + 1) true stream

theorem length_readProgressLine {out : List UInt8} {rawBytes : Nat} {truncated : Bool}
    {stream : List UInt8} (h : (readProgressLine out rawBytes truncated stream).1.ended = false) :
    (readProgressLine out rawBytes truncated stream).2.length < stream.length := by
  induction stream generalizing out rawBytes truncated with
  | nil => cases h
  | cons b stream ih =>
    rw [readProgressLine] at h ⊢
    split
    · split
      · simp only [List.length_tail, List.length_cons]
        omega
      · exact Nat.lt_succ_self _
    · next hreturn =>
      rw [if_neg hreturn] at h
      split
      · exact Nat.lt_succ_self _
      · next hfeed =>
        rw [if_neg hfeed] at h
        split
        · next hroom =>
          rw [if_pos hroom] at h
          exact Nat.lt_succ_of_lt (ih h)
        · next hroom =>
          rw [if_neg hroom] at h
          exact Nat.lt_succ_of_lt (ih h)

def ProgressLine.captured (p : ProgressLine) : List UInt8 :=
  if p.terminated then p.line ++ [lineFeed] else p.line

def captureLine (buf : BoundedTailBuffer) (p : ProgressLine) : BoundedTailBuffer :=
  if 0 < p.rawBytes then buf.writeCaptured p.captured p.rawBytes p.truncated else buf

def captureProgressLines (buf : BoundedTailBuffer) (stream : List UInt8) : BoundedTailBuffer :=
  let next := readProgressLine [] 0 false stream
  if h : next.1.ended = true then captureLine buf next.1
  else
    have := length_readProgressLine (Bool.eq_false_iff.mpr h)
    captureProgressLines (captureLine buf next.1) next.2
termination_by stream.length

theorem captureProgressLines_eq {buf : BoundedTailBuffer} {stream rest : List UInt8}
    {p : ProgressLine} (h : readProgressLine [] 0 false stream = (p, rest)) :
    captureProgressLines buf stream =
      if p.ended = true then captureLine buf p
      else captureProgressLines (captureLine buf p) rest := by
  obtain rfl : (readProgressLine [] 0 false stream).1 = p := congrArg Prod.fst h
  obtain rfl : (readProgressLine [] 0 false stream).2 = rest := congrArg Prod.snd h
  rw [captureProgressLines]
  split <;> rfl

/-! ## Normalized bytes -/

/-- A stream with line feeds for line ends and lines that are cut. `room` is what still
fits into the line, and `skip` says that a carriage return stands before. -/
def normalizedFrom (room : Nat) (skip : Bool) : List UInt8 → List UInt8
  | [] => []
  | b :: stream =>
    if skip = true ∧ b = lineFeed then normalizedFrom room false stream
    else if b = carriageReturn then lineFeed :: normalizedFrom streamLineLimit true stream
    else if b = lineFeed then lineFeed :: normalizedFrom streamLineLimit false stream
    else if 0 < room then b :: normalizedFrom (room - 1) false stream
    else normalizedFrom 0 false stream

def CutFrom (room : Nat) (skip : Bool) : List UInt8 → Prop
  | [] => False
  | b :: stream =>
    if skip = true ∧ b = lineFeed then CutFrom room false stream
    else if b = carriageReturn then CutFrom streamLineLimit true stream
    else if b = lineFeed then CutFrom streamLineLimit false stream
    else if 0 < room then CutFrom (room - 1) false stream
    else True

def normalized (stream : List UInt8) : List UInt8 := normalizedFrom streamLineLimit false stream

def HasCutLine (stream : List UInt8) : Prop := CutFrom streamLineLimit false stream

/-! ## One line -/

def Plain (x : List UInt8) : Prop := ∀ b ∈ x, b ≠ carriageReturn ∧ b ≠ lineFeed

/-- How a line ends, before what follows. -/
inductive LineEnd : List UInt8 → List UInt8 → Prop
  | feed (rest) : LineEnd [lineFeed] rest
  | both (rest) : LineEnd [carriageReturn, lineFeed] rest
  | ret (rest) (h : rest.head? ≠ some lineFeed) : LineEnd [carriageReturn] rest

theorem exists_line (stream : List UInt8) : ∃ x ys, stream = x ++ ys ∧ Plain x ∧
    (ys = [] ∨ ∃ e rest, LineEnd e rest ∧ ys = e ++ rest) := by
  induction stream with
  | nil => exact ⟨[], [], rfl, fun _ hb => absurd hb List.not_mem_nil, .inl rfl⟩
  | cons b stream ih =>
    by_cases hreturn : b = carriageReturn
    · refine ⟨[], b :: stream, rfl, fun _ hb => absurd hb List.not_mem_nil, .inr ?_⟩
      subst hreturn
      by_cases hfeed : stream.head? = some lineFeed
      · cases stream with
        | nil => cases hfeed
        | cons c rest =>
          cases hfeed
          exact ⟨_, rest, .both rest, rfl⟩
      · exact ⟨_, stream, .ret stream hfeed, rfl⟩
    · by_cases hfeed : b = lineFeed
      · subst hfeed
        exact ⟨[], _, rfl, fun _ hb => absurd hb List.not_mem_nil,
          .inr ⟨_, stream, .feed stream, rfl⟩⟩
      · obtain ⟨x, ys, hstream, hx, hys⟩ := ih
        refine ⟨b :: x, ys, by rw [hstream, List.cons_append], ?_, hys⟩
        exact List.forall_mem_cons.mpr ⟨⟨hreturn, hfeed⟩, hx⟩

variable {x ys e rest out stream : List UInt8} {room raw : Nat} {more : Bool}

theorem readProgressLine_append (hx : Plain x) (hout : out.length ≤ streamLineLimit) :
    readProgressLine out raw more (x ++ ys) =
      readProgressLine ((out ++ x).take streamLineLimit) (raw + x.length)
        (more || decide (streamLineLimit < out.length + x.length)) ys := by
  induction x generalizing out raw more with
  | nil =>
    rw [List.nil_append, List.append_nil, List.take_of_length_le hout, List.length_nil,
      Nat.add_zero, Nat.add_zero, decide_eq_false (Nat.not_lt.mpr hout), Bool.or_false]
  | cons b x ih =>
    obtain ⟨hb, hx⟩ := List.forall_mem_cons.mp hx
    rw [List.cons_append, readProgressLine, if_neg hb.1, if_neg hb.2]
    have hraw : raw + 1 + x.length = raw + (b :: x).length := by
      rw [List.length_cons]
      omega
    split
    · next hroom =>
      have hlength : (out ++ [b]).length = out.length + 1 := by
        rw [List.length_append, List.length_singleton]
      rw [ih hx (hlength ▸ hroom), hraw, hlength, List.append_assoc, List.singleton_append]
      congr 3
      rw [List.length_cons, Nat.add_right_comm, Nat.add_assoc]
    · next hroom =>
      have hfull : out.length = streamLineLimit := Nat.le_antisymm hout (Nat.not_lt.mp hroom)
      rw [ih hx hout, hraw, ← hfull, List.take_left, List.take_left, Bool.true_or,
        decide_eq_true (by rw [List.length_cons]; omega), Bool.or_true]

theorem normalizedFrom_append (hx : Plain x) : normalizedFrom room false (x ++ ys) =
      x.take room ++ normalizedFrom (room - x.length) false ys := by
  induction x generalizing room with
  | nil => rw [List.nil_append, List.take_nil, List.nil_append, List.length_nil, Nat.sub_zero]
  | cons b x ih =>
    obtain ⟨hb, hx⟩ := List.forall_mem_cons.mp hx
    rw [List.cons_append, normalizedFrom, if_neg (fun h => Bool.false_ne_true h.1),
      if_neg hb.1, if_neg hb.2]
    cases room with
    | zero =>
      rw [if_neg (Nat.lt_irrefl 0), ih hx, List.take_zero, List.take_zero, Nat.zero_sub,
        Nat.zero_sub]
    | succ room =>
      rw [if_pos room.succ_pos, Nat.add_sub_cancel, ih hx, List.take_succ_cons,
        List.cons_append, List.length_cons, Nat.add_sub_add_right]

theorem cutFrom_append (hx : Plain x) :
    CutFrom room false (x ++ ys) ↔ room < x.length ∨ CutFrom (room - x.length) false ys := by
  induction x generalizing room with
  | nil => simp
  | cons b x ih =>
    obtain ⟨hb, hx⟩ := List.forall_mem_cons.mp hx
    rw [List.cons_append, CutFrom, if_neg (fun h => Bool.false_ne_true h.1), if_neg hb.1,
      if_neg hb.2, List.length_cons]
    cases room with
    | zero => simp
    | succ room =>
      rw [if_pos room.succ_pos, Nat.add_sub_cancel, ih hx, Nat.add_lt_add_iff_right,
        Nat.add_sub_add_right]

theorem normalizedFrom_skip (h : rest.head? ≠ some lineFeed) :
    normalizedFrom room true rest = normalizedFrom room false rest := by
  cases rest with
  | nil => rfl
  | cons b rest =>
    have hb : b ≠ lineFeed := fun hb => h (congrArg some hb)
    simp [normalizedFrom, hb]

theorem cutFrom_skip (h : rest.head? ≠ some lineFeed) :
    CutFrom room true rest ↔ CutFrom room false rest := by
  cases rest with
  | nil => exact Iff.rfl
  | cons b rest =>
    have hb : b ≠ lineFeed := fun hb => h (congrArg some hb)
    simp [CutFrom, hb]

namespace LineEnd

theorem read (h : LineEnd e rest) : readProgressLine out raw more (e ++ rest) =
    (⟨out, raw + e.length, more, true, false⟩, rest) := by
  cases h with
  | feed => rfl
  | both => rfl
  | ret rest h =>
    show readProgressLine out raw more (carriageReturn :: rest) = _
    rw [readProgressLine, if_pos rfl, if_neg h]
    rfl

theorem normalized (h : LineEnd e rest) :
    normalizedFrom room false (e ++ rest) = lineFeed :: normalized rest := by
  cases h with
  | feed => rfl
  | both => rfl
  | ret rest h => exact congrArg _ (normalizedFrom_skip h)

theorem cut (h : LineEnd e rest) : CutFrom room false (e ++ rest) ↔ HasCutLine rest := by
  cases h with
  | feed => exact Iff.rfl
  | both => exact Iff.rfl
  | ret rest h => exact cutFrom_skip h

theorem length (h : LineEnd e rest) : 0 < e.length := by
  cases h <;> exact Nat.succ_pos _

end LineEnd

/-! ## The whole stream -/

/-- A buffer that was fed bytes for a number of raw ones. `flagged` says what the buffer
calls truncated besides bytes that it has dropped. -/
structure Fed (limit : Nat) (norm : List UInt8) (raw : Nat) (flagged : Prop)
    (b : BoundedTailBuffer) : Prop where
  bound : b.limit = limit
  data : b.data = norm.drop (norm.length - limit)
  total : b.total = raw
  bytes : norm.length ≤ raw
  start : norm = [] → raw = 0
  truncated : b.truncated = true ↔ limit < norm.length ∨ flagged

variable {limit k : Nat} {norm p : List UInt8} {flagged : Prop} {b : BoundedTailBuffer}

theorem fed_new (limit : Int) : Fed limit.toNat [] 0 False (newBoundedTailBuffer limit) :=
  { bound := by
      show (max 0 limit).toNat = limit.toNat
      omega
    data := List.drop_nil.symm
    total := rfl
    bytes := Nat.le_refl _
    start := fun _ => rfl
    truncated := by simp [newBoundedTailBuffer] }

theorem Fed.congr {flagged' : Prop} (h : Fed limit norm raw flagged b)
    (hflagged : flagged ↔ flagged') : Fed limit norm raw flagged' b :=
  { h with truncated := by rw [← hflagged, h.truncated] }

theorem Fed.writeCaptured (h : Fed limit norm raw flagged b) (more : Bool) (hp : p ≠ [])
    (hk : p.length ≤ k) :
    Fed limit (norm ++ p) (raw + k)
      (flagged ∨ more = true ∨ norm = [] ∧ p.length = limit ∧ limit < k)
      (b.writeCaptured p k more) := by
  have hpos : 0 < p.length := List.length_pos_iff.mpr hp
  have hbytes := h.bytes
  have hlength : (norm ++ p).length = norm.length + p.length := List.length_append
  have hdata : b.data.length = norm.length - (norm.length - limit) := by
    rw [h.data, List.length_drop]
  have htotal : (b.writeCaptured p k more).total = raw + k := by
    rw [BoundedTailBuffer.writeCaptured, BoundedTailBuffer.appendTail]
    split <;> (try split) <;> (try split) <;> exact congrArg (· + k) h.total
  refine ⟨?_, ?_, htotal, by omega, fun hnil => absurd (List.append_eq_nil_iff.mp hnil).2 hp, ?_⟩
  · rw [BoundedTailBuffer.writeCaptured, BoundedTailBuffer.appendTail]
    split <;> (try split) <;> (try split) <;> exact h.bound
  · rw [BoundedTailBuffer.writeCaptured, BoundedTailBuffer.appendTail]
    simp only [h.bound]
    split
    · next hzero =>
      show b.data = _
      rw [h.data, hzero, Nat.sub_zero, Nat.sub_zero, List.drop_length, List.drop_length]
    · split
      · next hlarge =>
        show p.drop _ = _
        have hgone : norm.drop (norm.length + p.length - limit) = [] :=
          List.drop_eq_nil_of_le (by omega)
        rw [hlength, List.drop_append, hgone, List.nil_append]
        congr 1
        omega
      · split
        · next hover =>
          show b.data.drop _ ++ p = _
          rw [h.data, List.drop_drop, List.drop_append_of_le_length (by omega), hlength]
          congr 2
          rw [List.length_drop]
          omega
        · next hroom =>
          show b.data ++ p = _
          rw [h.data, List.drop_append_of_le_length (by omega), hlength]
          congr 2
          omega
  · have htruncated := h.truncated
    have hstart : norm = [] → norm.length = 0 ∧ raw = 0 :=
      fun hnil => ⟨List.length_eq_zero_iff.mpr hnil, h.start hnil⟩
    have hsome : norm ≠ [] → 0 < norm.length := List.length_pos_iff.mpr
    rw [BoundedTailBuffer.writeCaptured, BoundedTailBuffer.appendTail, hlength]
    simp only [h.bound, h.total]
    split
    · grind
    · split
      · cases norm with
        | nil => grind
        | cons => grind
      · split
        · grind
        · grind

/-- The first line fills the buffer to the last byte with more bytes than are kept. -/
def FirstFills (limit : Nat) (stream : List UInt8) : Prop :=
  (readProgressLine [] 0 false stream).1.captured.length = limit ∧
    limit < (readProgressLine [] 0 false stream).1.rawBytes

theorem readProgressLine_start (hx : Plain x) : readProgressLine [] 0 false (x ++ ys) =
    readProgressLine (x.take streamLineLimit) x.length
      (decide (streamLineLimit < x.length)) ys := by
  have h : readProgressLine [] 0 false (x ++ ys) = _ :=
    readProgressLine_append hx (Nat.zero_le _)
  rw [h, List.nil_append, Nat.zero_add, Bool.false_or]
  simp only [List.length_nil, Nat.zero_add]

theorem read_last (hx : Plain x) : readProgressLine [] 0 false x =
    (⟨x.take streamLineLimit, x.length, decide (streamLineLimit < x.length), false, true⟩, []) := by
  have h : readProgressLine [] 0 false (x ++ []) = _ := readProgressLine_start hx
  rw [List.append_nil] at h
  exact h

theorem read_line (hx : Plain x) (he : LineEnd e rest) :
    readProgressLine [] 0 false (x ++ (e ++ rest)) =
      (⟨x.take streamLineLimit, x.length + e.length, decide (streamLineLimit < x.length), true,
        false⟩, rest) := by
  rw [readProgressLine_start hx, he.read]

theorem normalized_last (hx : Plain x) : normalized x = x.take streamLineLimit := by
  have h : normalizedFrom streamLineLimit false (x ++ []) = _ := normalizedFrom_append hx
  rw [List.append_nil, normalizedFrom, List.append_nil] at h
  exact h

theorem normalized_line (hx : Plain x) (he : LineEnd e rest) :
    normalized (x ++ (e ++ rest)) = x.take streamLineLimit ++ [lineFeed] ++ normalized rest := by
  rw [normalized, normalizedFrom_append hx, he.normalized, List.append_assoc,
    List.singleton_append]

theorem hasCutLine_last (hx : Plain x) : HasCutLine x ↔ streamLineLimit < x.length := by
  have h : CutFrom streamLineLimit false (x ++ []) ↔ _ := cutFrom_append hx
  rw [List.append_nil, CutFrom, or_false] at h
  exact h

theorem hasCutLine_line (hx : Plain x) (he : LineEnd e rest) :
    HasCutLine (x ++ (e ++ rest)) ↔ streamLineLimit < x.length ∨ HasCutLine rest := by
  rw [HasCutLine, cutFrom_append hx, he.cut]

theorem fed_captureProgressLines (h : Fed limit norm raw flagged b) :
    Fed limit (norm ++ normalized stream) (raw + stream.length)
      (flagged ∨ HasCutLine stream ∨ norm = [] ∧ FirstFills limit stream)
      (captureProgressLines b stream) := by
  induction hn : stream.length using Nat.strongRecOn generalizing stream norm raw flagged b with
  | ind n ih =>
    subst hn
    obtain ⟨x, ys, rfl, hx, rfl | ⟨e, rest, he, rfl⟩⟩ := exists_line stream
    · rw [List.append_nil, captureProgressLines_eq (read_last hx), FirstFills, normalized_last hx,
        hasCutLine_last hx, read_last hx, if_pos rfl]
      cases x with
      | nil => simpa [captureLine] using h.congr (by simp)
      | cons c x =>
        have hsome : (c :: x).take streamLineLimit ≠ [] := by simp [streamLineLimit]
        have hfed := h.writeCaptured (decide (streamLineLimit < (c :: x).length)) hsome
          (List.length_take_le' _ _)
        simpa [captureLine, ProgressLine.captured] using hfed
    · have hlong := he.length
      have hsome : x.take streamLineLimit ++ [lineFeed] ≠ [] := by simp
      have hkept : (x.take streamLineLimit ++ [lineFeed]).length ≤ x.length + e.length := by
        rw [List.length_append, List.length_take, List.length_singleton]
        omega
      have hstep := h.writeCaptured (decide (streamLineLimit < x.length)) hsome hkept
      have hrest := ih rest.length (by simp only [List.length_append]; omega) hstep rfl
      rw [captureProgressLines_eq (read_line hx he), FirstFills, normalized_line hx he,
        hasCutLine_line hx he, read_line hx he, if_neg Bool.false_ne_true, captureLine,
        if_pos (by show 0 < _ + _; omega), ← List.append_assoc, List.length_append,
        List.length_append, ← Nat.add_assoc, ← Nat.add_assoc]
      rw [← Nat.add_assoc] at hrest
      refine hrest.congr ?_
      simp only [decide_eq_true_eq, List.append_eq_nil_iff, ProgressLine.captured, if_pos]
      grind

/-! ## The claimed tail -/

/-- The buffer holds the last bytes of a stream and tells what it holds. -/
structure Honest (limit : Int) (stream : List UInt8) (b : BoundedTailBuffer) : Prop where
  data : b.data = (normalized stream).drop ((normalized stream).length - limit.toNat)
  total : b.total = stream.length
  truncated : b.truncated = true ↔ limit.toNat < (normalized stream).length ∨ HasCutLine stream

theorem normalized_eq_nil (h : normalized stream = []) : stream = [] := by
  cases stream with
  | nil => rfl
  | cons b stream =>
    simp only [normalized, normalizedFrom, Bool.false_eq_true, false_and, if_false,
      show 0 < streamLineLimit by decide, if_true] at h
    split at h
    · cases h
    · split at h <;> cases h

/-- A single line that fills the buffer and ends with a carriage return and a line feed. -/
def FullLine (limit : Nat) (stream line : List UInt8) : Prop :=
  stream = line ++ [carriageReturn, lineFeed] ∧
    (∀ b ∈ line, b ≠ carriageReturn ∧ b ≠ lineFeed) ∧
    line.length + 1 = limit ∧ line.length ≤ streamLineLimit

theorem firstFills_iff : FirstFills limit stream ∧
    ¬ (limit < (normalized stream).length ∨ HasCutLine stream) ↔
      ∃ line, FullLine limit stream line := by
  constructor
  · rintro ⟨hfills, hnot⟩
    rw [not_or, Nat.not_lt] at hnot
    obtain ⟨x, ys, rfl, hx, rfl | ⟨e, rest, he, rfl⟩⟩ := exists_line stream
    · rw [List.append_nil, hasCutLine_last hx] at hnot
      rw [List.append_nil, FirstFills, read_last hx] at hfills
      simp only [ProgressLine.captured, List.length_take, Bool.false_eq_true, if_false] at hfills
      omega
    · rw [normalized_line hx he, hasCutLine_line hx he, List.length_append, not_or,
        Nat.not_lt] at hnot
      rw [FirstFills, read_line hx he] at hfills
      simp only [ProgressLine.captured, if_true] at hfills
      obtain ⟨hroom, hshort, hcut⟩ := hnot
      have hnil : normalized rest = [] := List.length_eq_zero_iff.mp (by omega)
      rw [List.take_of_length_le hshort, List.length_append, List.length_singleton] at hfills
      cases he with
      | feed =>
        rw [List.length_singleton] at hfills
        omega
      | ret rest h =>
        rw [List.length_singleton] at hfills
        omega
      | both =>
        refine ⟨x, ?_, hx, hfills.1, hshort⟩
        rw [normalized_eq_nil hnil]
        rfl
  · rintro ⟨line, rfl, hline, hlimit, hshort⟩
    have hread := read_line hline (.both [])
    have hnorm := normalized_line hline (.both [])
    have hcut := hasCutLine_line hline (.both [])
    rw [List.append_nil, List.take_of_length_le hshort] at hread hnorm
    rw [List.append_nil] at hcut
    have hfills : FirstFills limit (line ++ [carriageReturn, lineFeed]) := by
      rw [FirstFills, hread]
      simp only [ProgressLine.captured, if_true, List.length_append, List.length_cons,
        List.length_nil]
      omega
    refine ⟨hfills, ?_⟩
    rw [hnorm, hcut]
    simp only [normalized, normalizedFrom, HasCutLine, CutFrom, List.append_nil,
      List.length_append, List.length_singleton, or_false]
    omega

theorem honest_iff {limit : Int} :
    Honest limit stream (captureProgressLines (newBoundedTailBuffer limit) stream) ↔
      ¬ ∃ line, FullLine limit.toNat stream line := by
  have hfed : Fed limit.toNat ([] ++ normalized stream) (0 + stream.length) _ _ :=
    fed_captureProgressLines (fed_new limit)
  rw [List.nil_append, Nat.zero_add] at hfed
  have htruncated := hfed.truncated
  rw [← firstFills_iff]
  constructor
  · rintro h ⟨hfills, hnot⟩
    exact hnot (h.truncated.mp (htruncated.mpr (.inr (.inr (.inr ⟨rfl, hfills⟩)))))
  · intro h
    refine ⟨hfed.data, hfed.total, htruncated.trans ⟨?_, ?_⟩⟩
    · rintro (hlong | hfalse | hcut | ⟨-, hfills⟩)
      · exact .inl hlong
      · exact hfalse.elim
      · exact .inr hcut
      · exact Classical.not_not.mp fun hnot => h ⟨hfills, hnot⟩
    · rintro (hlong | hcut)
      · exact .inl hlong
      · exact .inr (.inr (.inl hcut))

/-- A captured stream is honest unless it is one line that fills the buffer and ends with a
carriage return and a line feed. -/
theorem capture_honest_iff (limit : Int) (stream : List UInt8) :
    Honest limit stream (captureProgressLines (newBoundedTailBuffer limit) stream) ↔
      ¬ ∃ line, stream = line ++ [carriageReturn, lineFeed] ∧
        (∀ b ∈ line, b ≠ carriageReturn ∧ b ≠ lineFeed) ∧
        (line.length : Int) + 1 = limit ∧ line.length ≤ streamLineLimit := by
  rw [honest_iff]
  simp only [FullLine]
  have hlimit : ∀ line : List UInt8, line.length + 1 = limit.toNat ↔
      (line.length : Int) + 1 = limit := fun line => by omega
  simp only [hlimit]

def streamStderrLimit : Int := 64 * 1024

/-- The bytes of a line, its line feed included, fit into the buffer exactly. -/
theorem not_capture_honest : ¬ Honest streamStderrLimit
    (List.replicate 65535 97 ++ [carriageReturn, lineFeed])
    (captureProgressLines (newBoundedTailBuffer streamStderrLimit)
      (List.replicate 65535 97 ++ [carriageReturn, lineFeed])) := by
  rw [honest_iff, not_not]
  refine ⟨_, rfl, fun b hb => ?_, ?_, ?_⟩
  · rw [List.eq_of_mem_replicate hb]
    decide
  · rw [List.length_replicate]
    rfl
  · rw [List.length_replicate]
    decide

end HyperFileLens.Agent.ProcessOutput

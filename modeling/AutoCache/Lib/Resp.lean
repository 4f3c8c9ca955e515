import AutoCache.Lib.Decimal

/-!
# The reply protocol

Replies are integers, texts and arrays of replies, each behind a type byte and each line ended by CR LF. A
writer appends the parts of a reply one after the other; a reader takes them apart again. The reader goes into
arrays by recursion, so it is given a bound on their depth; as every array has a header, the length of the
input is one.
-/

namespace AutoCache.Resp

/-- What a reader makes of a reply. -/
inductive Value where
  | null
  | int (n : Int)
  | text (s : Bytes)
  | array (items : List Value)

inductive ParseError where
  | unexpectedEnd
  /-- `resp: invalid line ending` -/
  | lineEnding
  /-- `resp array length: %w` -/
  | arrayLength
  /-- `resp array length negative: %d` -/
  | negativeArrayLength (count : Int)
  /-- `resp integer: %w` -/
  | integer
  /-- `resp bulk length: %w` -/
  | bulkLength
  /-- `resp bulk length negative: %d` -/
  | negativeBulkLength (length : Int)
  /-- `resp bulk missing terminator` -/
  | bulkTerminator
  /-- `resp error: %s` -/
  | errorReply (line : Bytes)
  /-- `resp: unexpected prefix %q` -/
  | unexpectedType (c : UInt8)
  /-- the bound on the depth was too small -/
  | depth
  deriving DecidableEq

/-! ## Writing -/

def crlf : Bytes := [13, 10]

def writeArray (count : ℕ) : Bytes := 42 :: formatInt count ++ crlf

lemma three_le_length_writeArray (count : ℕ) : 3 ≤ (writeArray count).length := by
  simp [writeArray, crlf]

def writeInt (n : Int) : Bytes := 58 :: formatInt n ++ crlf

def writeBulk (s : Bytes) : Bytes := 36 :: formatInt s.length ++ crlf ++ s ++ crlf

/-! ## Reading -/

/-- Everything up to the first newline, which a return has to precede. -/
def readLine (input : Bytes) : Except ParseError (Bytes × Bytes) :=
  match input.dropWhile (· ≠ 10) with
  | [] => .error .unexpectedEnd
  | _ :: rest =>
    let line := input.takeWhile (· ≠ 10)
    if line.getLast? = some 13 then .ok (line.dropLast, rest) else .error .lineEnding

def readItems (read : Bytes → Except ParseError (Value × Bytes)) :
    ℕ → Bytes → Except ParseError (List Value × Bytes)
  | 0, input => .ok ([], input)
  | count + 1, input => do
    let (item, rest) ← read input
    let (items, rest) ← readItems read count rest
    return (item :: items, rest)

def readNumber (err : ParseError) (input : Bytes) : Except ParseError (Int × Bytes) := do
  let (line, rest) ← readLine input
  match parseInt line with
  | none => throw err
  | some n => return (n, rest)

def readText (length : ℕ) (input : Bytes) : Except ParseError (Value × Bytes) :=
  if input.length < length + 2 then .error .unexpectedEnd
  else if (input.drop length).take 2 = crlf then .ok (.text (input.take length), input.drop (length + 2))
  else .error .bulkTerminator

def read : ℕ → Bytes → Except ParseError (Value × Bytes)
  | 0, _ => .error .depth
  | _ + 1, [] => .error .unexpectedEnd
  | depth + 1, 42 :: input => do
    let (count, rest) ← readNumber .arrayLength input
    if count = -1 then return (.null, rest)
    else if count < -1 then throw (.negativeArrayLength count)
    else
      let (items, rest) ← readItems (read depth) count.toNat rest
      return (.array items, rest)
  | _ + 1, 58 :: input => do
    let (n, rest) ← readNumber .integer input
    return (.int n, rest)
  | _ + 1, 36 :: input => do
    let (length, rest) ← readNumber .bulkLength input
    if length = -1 then return (.null, rest)
    else if length < -1 then throw (.negativeBulkLength length)
    else readText length.toNat rest
  | _ + 1, 43 :: input => do
    let (line, rest) ← readLine input
    return (.text line, rest)
  | _ + 1, 45 :: input => do
    let (line, _) ← readLine input
    throw (.errorReply line)
  | _ + 1, c :: _ => .error (.unexpectedType c)

/-! ## Reading what was written -/

variable {n : Int} {depth : ℕ} {rest : Bytes}

lemma readLine_append {line : Bytes} (h : (10 : UInt8) ∉ line) (rest : Bytes) :
    readLine (line ++ crlf ++ rest) = .ok (line, rest) := by
  have hall : ∀ c ∈ line ++ [13], decide (c ≠ 10) = true := by
    intro c hc
    rw [decide_eq_true_iff]
    rintro rfl
    rcases List.mem_append.1 hc with hc | hc
    · exact h hc
    · simp at hc
  have hsplit : line ++ crlf ++ rest = (line ++ [13]) ++ 10 :: rest := by simp [crlf]
  unfold readLine
  rw [hsplit, List.dropWhile_append_of_pos hall, List.takeWhile_append_of_pos hall]
  simp

lemma newline_not_mem_formatInt (n : Int) : (10 : UInt8) ∉ formatInt n := by
  have hdigits : ∀ k : ℕ, (10 : UInt8) ∉ formatNat k := fun k hmem =>
    absurd (isDigit_of_mem_formatNat hmem) (by decide)
  unfold formatInt
  split
  · intro hmem
    rcases List.mem_cons.1 hmem with heq | hmem
    · cases heq
    · exact hdigits _ hmem
  · exact hdigits _

lemma readNumber_formatInt (hmin : -2 ^ 63 ≤ n) (hmax : n < 2 ^ 63) (err : ParseError) (rest : Bytes) :
    readNumber err (formatInt n ++ crlf ++ rest) = .ok (n, rest) := by
  unfold readNumber
  rw [readLine_append (newline_not_mem_formatInt n)]
  change (match parseInt (formatInt n) with | none => throw err | some n => pure (n, rest)) = _
  rw [parseInt_formatInt hmin hmax]
  rfl

lemma readText_append (s rest : Bytes) : readText s.length (s ++ crlf ++ rest) = .ok (.text s, rest) := by
  unfold readText
  rw [if_neg (by simp [crlf]), if_pos (by simp [crlf])]
  simp [crlf]

lemma read_writeInt (hmin : -2 ^ 63 ≤ n) (hmax : n < 2 ^ 63) (rest : Bytes) :
    read (depth + 1) (writeInt n ++ rest) = .ok (.int n, rest) := by
  have hsplit : writeInt n ++ rest = 58 :: (formatInt n ++ crlf ++ rest) := rfl
  rw [hsplit, read, readNumber_formatInt hmin hmax]
  rfl

lemma read_writeBulk {s : Bytes} (hlen : s.length < 2 ^ 63) (rest : Bytes) :
    read (depth + 1) (writeBulk s ++ rest) = .ok (.text s, rest) := by
  have hsplit : writeBulk s ++ rest = 36 :: (formatInt s.length ++ crlf ++ (s ++ crlf ++ rest)) := by simp [writeBulk]
  have hneg : ¬ (s.length : Int) < -1 := by omega
  have hnull : ¬ (s.length : Int) = -1 := by omega
  rw [hsplit, read, readNumber_formatInt (by omega) (by omega)]
  dsimp only [bind, Except.bind]
  rw [if_neg hnull, if_neg hneg, Int.toNat_natCast, readText_append]

lemma read_writeArray_eq {count : ℕ} (hcnt : count < 2 ^ 63) (body : Bytes) : read (depth + 1) (writeArray count ++ body) =
      (readItems (read depth) count body).map fun r => (.array r.1, r.2) := by
  have hsplit : writeArray count ++ body = 42 :: (formatInt count ++ crlf ++ body) := rfl
  have hneg : ¬ (count : Int) < -1 := by omega
  have hnull : ¬ (count : Int) = -1 := by omega
  rw [hsplit, read, readNumber_formatInt (by omega) (by omega)]
  dsimp only [bind, Except.bind]
  rw [if_neg hnull, if_neg hneg, Int.toNat_natCast]
  cases readItems (read depth) count body <;> rfl

/-- **An array**, when its items can be read one after the other. -/
lemma read_writeArray {count : ℕ} {items : List Value} {body : Bytes} (hcnt : count < 2 ^ 63)
    (hitems : readItems (read depth) count body = .ok (items, rest)) :
    read (depth + 1) (writeArray count ++ body) = .ok (.array items, rest) := by
  rw [read_writeArray_eq hcnt, hitems]
  rfl

lemma readItems_cons {readOne : Bytes → Except ParseError (Value × Bytes)} {count : ℕ} {item : Value}
    {items : List Value} {input rest rest' : Bytes} (hitem : readOne input = .ok (item, rest))
    (hitems : readItems readOne count rest = .ok (items, rest')) :
    readItems readOne (count + 1) input = .ok (item :: items, rest') := by
  rw [readItems, hitem]
  change (do let (items, rest) ← readItems readOne count rest; pure (item :: items, rest)) = _
  rw [hitems]
  rfl

/-- The items of a list, each written by `write`. -/
lemma readItems_flatMap {α : Type} {readOne : Bytes → Except ParseError (Value × Bytes)}
    {write : α → Bytes} {value : α → Value} {items : List α}
    (h : ∀ a ∈ items, ∀ rest, readOne (write a ++ rest) = .ok (value a, rest)) (rest : Bytes) :
    readItems readOne items.length (items.flatMap write ++ rest) = .ok (items.map value, rest) := by
  induction items with
  | nil => rfl
  | cons a items ih =>
    obtain ⟨hitem, hitems⟩ := List.forall_mem_cons.1 h
    rw [List.flatMap_cons, List.append_assoc, List.length_cons, List.map_cons]
    exact readItems_cons (hitem _) (ih hitems)

end AutoCache.Resp

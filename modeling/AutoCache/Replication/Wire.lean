import AutoCache.Lib.Buffered
import AutoCache.Shard.Defs

/-!
# Operations on the wire
(`internal/cluster/replication/stream.go`, `readReplicationOp` of `replica_conn.go`)

The master writes an operation as an array of eight fields, each with its length in front; the replica
reads it back line by line and block by block. Numbers are read with `fmt.Sscanf`, whose errors nobody
looks at: a number that does not scan is zero.
-/

namespace AutoCache.Replication

open List

/-- The `Op` of the wire: the type is a text. -/
structure WireOp where
  slot : UInt16 := 0
  epoch : UInt64 := 0
  lsn : UInt64 := 0
  opType : Bytes := []
  key : Bytes := []
  expireAtNs : Int := 0
  payload : Bytes := []
  deriving DecidableEq, Repr

/-- An operation as Go can hold it: the deadline is an `int64`, and the texts have been allocated. -/
structure SentOp extends WireOp where
  expireAtNs_range : -2 ^ 63 ≤ expireAtNs ∧ expireAtNs < 2 ^ 63
  texts_fit : opType.length < 2 ^ 47 ∧ key.length < 2 ^ 47 ∧ payload.length < 2 ^ 47

/-! ## Writing -/

def crlf : Bytes := [13, 10]

/-- `REPLAPPLY`. -/
def marker : Bytes := [82, 69, 80, 76, 65, 80, 80, 76, 89]

def WireOp.fields (op : WireOp) : List Bytes :=
  [marker, formatNat op.slot.toNat, formatNat op.epoch.toNat, formatNat op.lsn.toNat, op.opType,
    op.key, formatInt op.expireAtNs, op.payload]

/-- `$`, the length, and the field. -/
def encodeField (field : Bytes) : Bytes :=
  36 :: formatNat field.length ++ crlf ++ field ++ crlf

def encodeReplicationApplyCommand (op : WireOp) : Bytes :=
  42 :: formatNat op.fields.length ++ crlf ++ op.fields.flatMap encodeField

/-! ## Scanning numbers -/

/-- The blanks `fmt` skips, of those in ASCII, except the newline, which it does not. -/
def isBlank (c : UInt8) : Bool := c = 32 || c = 9 || c = 11 || c = 12 || c = 13

/-- `%d` into an `int`. -/
def scanInt (s : Bytes) : Option Int :=
  match s.dropWhile isBlank with
  | 43 :: rest => parseInt (43 :: rest.takeWhile isDigit)
  | 45 :: rest => parseInt (45 :: rest.takeWhile isDigit)
  | rest => parseInt (rest.takeWhile isDigit)

/-- `%d` into a `uint64`. -/
def scanUint (s : Bytes) : Option ℕ :=
  (parseNat ((s.dropWhile isBlank).takeWhile isDigit)).filter fun n => n < 2 ^ 64

/-- `fmt.Sscanf(line, "*%d\r\n", &n)`, and the same with `$`; what follows the number is not needed to
set `n`. -/
def sscanf (lead : UInt8) : Bytes → Int
  | [] => 0
  | c :: rest => if c = lead then (scanInt rest).getD 0 else 0

/-! ## Reading -/

/-- The errors of `readReplicationOp`. -/
inductive ReadError where
  /-- the input ended -/
  | eof
  /-- `expected array, got %q` -/
  | expectedArray (line : Bytes)
  /-- `expected >=8 fields, got %d` -/
  | fewFields (count : Int)
  deriving DecidableEq, Repr

abbrev ReadM : Type → Type := StateT (Reader UInt8) (ExceptT ReadError Go)

def orEOF {α : Type} : Option (α × Reader UInt8) → ExceptT ReadError Go (α × Reader UInt8)
  | some result => pure result
  | none => throw .eof

/-- `ReadString('\n')`. -/
def readString : ReadM Bytes := fun r => orEOF (Reader.readUntil 10 r.buffer r.chunks)

/-- `make([]byte, n)`: Go panics for a negative length and for one that cannot be allocated. -/
def makeBytes (n : Int) : Go ℕ := if n < 0 ∨ 2 ^ 48 < n then throw .sliceBounds else pure n.toNat

def readField : ReadM Bytes := do
  let lenLine ← readString
  let blen := sscanf 36 lenLine
  let n ← (makeBytes (wrap64 (blen + 2)) : Go ℕ)
  let data ← fun r => orEOF (Reader.readFull n r.buffer r.chunks)
  if blen < 0 then throwThe Fault .sliceBounds else return data.take blen.toNat

/-- What `readReplicationOp` does with the value of field `i`. -/
def WireOp.setField (op : WireOp) (i : ℕ) (val : Bytes) : WireOp :=
  match i with
  | 1 => { op with slot := UInt16.ofNat ((scanUint val).getD 0) }
  | 2 => { op with epoch := UInt64.ofNat ((scanUint val).getD 0) }
  | 3 => { op with lsn := UInt64.ofNat ((scanUint val).getD 0) }
  | 4 => { op with opType := val }
  | 5 => { op with key := val }
  | 6 => { op with expireAtNs := (scanInt val).getD 0 }
  | 7 => { op with payload := val }
  | _ => op

/-- The loop over the fields: `n` more, the next of them field `i`. -/
def readFields : ℕ → ℕ → WireOp → ReadM WireOp
  | 0, _, op => return op
  | n + 1, i, op => do
    let val ← readField
    readFields n (i + 1) (op.setField i val)

def readReplicationOp : ReadM WireOp := do
  let line ← readString
  if line.head? ≠ some 42 then throw (.expectedArray line)
  else
    let count := sscanf 42 line
    if count < 8 then throw (.fewFields count)
    else readFields count.toNat 0 {}

/-! ## Scanning what was printed -/

lemma not_isBlank_of_isDigit {c : UInt8} (h : isDigit c = true) : isBlank c = false := by
  cases hblank : isBlank c with
  | false => rfl
  | true =>
    simp only [isBlank, Bool.or_eq_true, decide_eq_true_eq] at hblank
    rcases hblank with (((rfl | rfl) | rfl) | rfl) | rfl <;> cases h

lemma takeWhile_formatNat (n : ℕ) {rest : Bytes} (hrest : ∀ c ∈ rest.head?, isDigit c = false) :
    (formatNat n ++ rest).takeWhile isDigit = formatNat n := by
  rw [takeWhile_append_of_pos fun c hc => isDigit_of_mem_formatNat hc]
  cases rest with
  | nil => simp
  | cons c rest => simp [hrest c rfl]

lemma dropWhile_isBlank {c : UInt8} {rest : Bytes} (h : isBlank c = false) : (c :: rest).dropWhile isBlank = c :: rest := by
  rw [dropWhile_cons_of_neg (by simp [h])]

lemma scanUint_formatNat {n : ℕ} (hn : n < 2 ^ 64) : scanUint (formatNat n) = some n := by
  obtain ⟨c, rest, hcons⟩ := exists_cons_of_ne_nil (formatNat_ne_nil n)
  have hblank : (formatNat n).dropWhile isBlank = formatNat n := by
    rw [hcons, dropWhile_isBlank (not_isBlank_of_isDigit (formatNat_head_isDigit hcons))]
  have htake : (formatNat n).takeWhile isDigit = formatNat n := by
    simpa using @takeWhile_formatNat n [] (by simp)
  rw [scanUint, hblank, htake, parseNat_formatNat, Option.filter_some, if_pos (decide_eq_true hn)]

lemma scanInt_formatInt {n : Int} (hmin : -2 ^ 63 ≤ n) (hmax : n < 2 ^ 63) {rest : Bytes}
    (hrest : ∀ c ∈ rest.head?, isDigit c = false) : scanInt (formatInt n ++ rest) = some n := by
  have hparse := parseInt_formatInt hmin hmax
  unfold formatInt at hparse ⊢
  split at hparse
  · rw [if_pos ‹_›, cons_append, scanInt, dropWhile_isBlank (by decide)]
    change parseInt (45 :: (formatNat n.natAbs ++ rest).takeWhile isDigit) = some n
    rw [takeWhile_formatNat _ hrest]
    exact hparse
  · rw [if_neg ‹_›]
    obtain ⟨c, digits, hcons⟩ := exists_cons_of_ne_nil (formatNat_ne_nil n.natAbs)
    have hdigit := formatNat_head_isDigit hcons
    have hscan : scanInt (formatNat n.natAbs ++ rest) = parseInt ((formatNat n.natAbs ++ rest).takeWhile isDigit) := by
      rw [hcons, cons_append, scanInt, dropWhile_isBlank (not_isBlank_of_isDigit hdigit)]
      split
      · next heq =>
        cases heq
        cases hdigit
      · next heq =>
        cases heq
        cases hdigit
      · rfl
    rw [hscan, takeWhile_formatNat _ hrest]
    exact hparse

lemma scanInt_formatNat {n : ℕ} (hn : n < 2 ^ 63) : scanInt (formatNat n ++ crlf) = some (n : Int) := by
  have hformat : formatNat n = formatInt n := by simp [formatInt]
  rw [hformat]
  exact scanInt_formatInt (by omega) (by omega) (by simp [crlf, isDigit])

/-! ## Reading what was written -/

/-- `x` takes exactly these bytes from the input, however it was cut, and returns `a`. -/
def Yields {α : Type} (x : ReadM α) (bytes : Bytes) (a : α) : Prop :=
  ∀ r rest, r.content = bytes ++ rest → ∃ r', x r = pure (a, r') ∧ r'.content = rest

namespace Yields

variable {α β : Type} {x : ReadM α} {f : α → ReadM β} {bytes bytes' : Bytes} {a : α} {b : β}

lemma pure (a : α) : Yields (Pure.pure a) [] a := fun r _ h => ⟨r, rfl, h⟩

lemma bind (hx : Yields x bytes a) (hf : Yields (f a) bytes' b) : Yields (x >>= f) (bytes ++ bytes') b := by
  intro r rest h
  rw [append_assoc] at h
  obtain ⟨r', hr', h'⟩ := hx r _ h
  obtain ⟨r'', hr'', h''⟩ := hf r' rest h'
  refine ⟨r'', ?_, h''⟩
  change (x r >>= fun p => f p.1 p.2) = _
  rw [hr', pure_bind]
  exact hr''

lemma lift {y : Go α} (h : y = .ok a) : Yields (liftM y) [] a := by
  subst h
  exact pure a

end Yields

lemma yields_readString {line : Bytes} (hline : 10 ∉ line) : Yields readString (line ++ [10]) (line ++ [10]) := by
  intro r rest h
  rw [append_assoc] at h
  obtain ⟨r', hread, hrest⟩ := Reader.readUntil_of_content hline h
  exact ⟨r', by rw [readString, hread]; rfl, hrest⟩

lemma yields_readFull (block : Bytes) :
    Yields (fun r => orEOF (Reader.readFull block.length r.buffer r.chunks)) block block := by
  intro r rest h
  obtain ⟨r', hread, hrest⟩ := Reader.readFull_of_content h
  exact ⟨r', by simp only [hread]; rfl, hrest⟩

lemma not_mem_numeral (lead : UInt8) (hlead : lead ≠ 10) (n : ℕ) : 10 ∉ lead :: formatNat n ++ [13] := by
  intro hmem
  simp only [cons_append, mem_cons, mem_append, not_mem_nil, or_false] at hmem
  rcases hmem with h | h | h
  · exact hlead h.symm
  · exact absurd (isDigit_of_mem_formatNat h) (by decide)
  · cases h

lemma yields_numeral {lead : UInt8} (hlead : lead ≠ 10) (n : ℕ) :
    Yields readString (lead :: formatNat n ++ crlf) (lead :: formatNat n ++ crlf) := by
  have hline := yields_readString (not_mem_numeral lead hlead n)
  rwa [append_assoc] at hline

lemma sscanf_numeral (lead : UInt8) {n : ℕ} (hn : n < 2 ^ 63) : sscanf lead (lead :: formatNat n ++ crlf) = n := by
  rw [cons_append, sscanf, if_pos rfl, scanInt_formatNat hn]
  rfl

lemma yields_readField {field : Bytes} (hfield : field.length < 2 ^ 47) : Yields readField (encodeField field) field := by
  have hblock := yields_readFull (field ++ crlf)
  have hlen : (field ++ crlf).length = field.length + 2 := by simp [crlf]
  rw [hlen] at hblock
  have hmake : makeBytes (wrap64 ((field.length : Int) + 2)) = .ok (field.length + 2) := by
    rw [wrap64_of_fits (by omega) (by omega), makeBytes, if_neg (by omega)]
    exact congrArg Except.ok (by omega)
  unfold readField encodeField
  rw [append_assoc]
  refine (yields_numeral (by decide) field.length).bind ?_
  rw [sscanf_numeral 36 (by omega), ← nil_append (field ++ crlf)]
  refine (Yields.lift hmake).bind ?_
  rw [← append_nil (field ++ crlf)]
  refine hblock.bind ?_
  rw [if_neg (by omega)]
  have htake : (field ++ crlf).take (field.length : Int).toNat = field := by simp
  rw [htake]
  exact Yields.pure field

/-- The fields from number `i` on. -/
def WireOp.setFields (op : WireOp) (i : ℕ) : List Bytes → WireOp
  | [] => op
  | field :: fields => (op.setField i field).setFields (i + 1) fields

lemma yields_readFields {fields : List Bytes} (hflds : ∀ field ∈ fields, field.length < 2 ^ 47) (i : ℕ) (op : WireOp) :
    Yields (readFields fields.length i op) (fields.flatMap encodeField) (op.setFields i fields) := by
  induction fields generalizing i op with
  | nil => exact Yields.pure op
  | cons field fields ih =>
    rw [flatMap_cons, length_cons, readFields, WireOp.setFields]
    exact (yields_readField (hflds field mem_cons_self)).bind
      (ih (fun f hf => hflds f (mem_cons_of_mem _ hf)) (i + 1) (op.setField i field))

lemma setFields_fields (op : SentOp) : ({} : WireOp).setFields 0 op.fields = op.toWireOp := by
  obtain ⟨⟨slot, epoch, lsn, opType, key, expireAtNs, payload⟩, hrange, -⟩ := op
  have hslot : scanUint (formatNat slot.toNat) = some slot.toNat :=
    scanUint_formatNat (slot.toNat_lt.trans (by decide))
  have hep : scanUint (formatNat epoch.toNat) = some epoch.toNat :=
    scanUint_formatNat epoch.toNat_lt
  have hlsn : scanUint (formatNat lsn.toNat) = some lsn.toNat := scanUint_formatNat lsn.toNat_lt
  have hexpire : scanInt (formatInt expireAtNs) = some expireAtNs := by
    simpa using @scanInt_formatInt _ hrange.1 hrange.2 [] (by simp)
  simp [WireOp.fields, WireOp.setFields, WireOp.setField, hslot, hep, hlsn, hexpire]

lemma length_formatNat_le {n : ℕ} (hn : n < 10 ^ 20) : (formatNat n).length ≤ 20 := by
  exact (formatInt_length_le_iff (by decide)).2 hn

lemma length_formatNat_lt {n : ℕ} (hn : n < 2 ^ 64) : (formatNat n).length < 2 ^ 47 :=
  (length_formatNat_le (hn.trans (by norm_num))).trans_lt (by norm_num)

lemma length_fields_lt (op : SentOp) : ∀ field ∈ op.fields, field.length < 2 ^ 47 := by
  obtain ⟨hopType, hkey, hpayload⟩ := op.texts_fit
  have hslot := length_formatNat_lt (op.slot.toNat_lt.trans (by decide))
  have hexpire : (formatInt op.expireAtNs).length < 2 ^ 47 := by
    have habs : op.expireAtNs.natAbs < 10 ^ 20 := by
      have hrange := op.expireAtNs_range
      omega
    have hdigits := length_formatNat_le habs
    unfold formatInt
    split
    · rw [length_cons]
      omega
    · omega
  simp only [WireOp.fields, forall_mem_cons, not_mem_nil, false_imp_iff, implies_true, and_true]
  exact ⟨by decide, hslot, length_formatNat_lt op.epoch.toNat_lt, length_formatNat_lt op.lsn.toNat_lt,
    hopType, hkey, hexpire, hpayload⟩

/-- **Operations.** What the master wrote is read back, and nothing more. -/
lemma yields_readReplicationOp (op : SentOp) :
    Yields readReplicationOp (encodeReplicationApplyCommand op.toWireOp) op.toWireOp := by
  have hflds := yields_readFields (length_fields_lt op) 0 {}
  rw [setFields_fields] at hflds
  generalize op.toWireOp = wire at hflds ⊢
  have hcnt : wire.fields.length = 8 := rfl
  have hscan : sscanf 42 (42 :: formatNat wire.fields.length ++ crlf) = 8 :=
    sscanf_numeral 42 (by rw [hcnt]; decide)
  unfold readReplicationOp encodeReplicationApplyCommand
  refine (yields_numeral (by decide) _).bind ?_
  rw [hscan, cons_append, head?_cons, if_neg (not_not.2 rfl), if_neg (by decide)]
  exact hflds

end AutoCache.Replication

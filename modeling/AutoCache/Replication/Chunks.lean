import AutoCache.Replication.Wire

/-!
# The stream of a replica (`internal/cluster/replication/replica_conn.go`)

After the handshake line the master writes operations for as long as the connection lives. The replica
reads the line with one buffered reader and the operations with another one on the same connection.
What the first has in its buffer behind the line is lost, so what the replica receives depends on how
the bytes arrive: all operations come through exactly when a read ends with the line.
-/

namespace AutoCache.Replication

open List

def okLine : Bytes := [43, 79, 75, 10]

def wire (ops : List SentOp) : Bytes :=
  ops.flatMap fun op => encodeReplicationApplyCommand op.toWireOp

/-- How `connectAndReceive` ends. -/
inductive ReceiveError where
  /-- `handshake read: %w` -/
  | handshakeRead
  /-- `unexpected handshake response: %q` -/
  | unexpectedHandshake (line : Bytes)
  /-- `read op: %w` -/
  | readOp (err : ReadError)
  deriving DecidableEq, Repr

/-- `receiveLoop`: the operations passed to `onOp`, and the error that ends the loop. An error of `onOp`
is only logged. -/
def receiveLoop : ℕ → Reader UInt8 → Go (List WireOp × ReadError)
  | 0, _ => throw .diverges
  | fuel + 1, r => do
    match ← (readReplicationOp r).run with
    | .error err => return ([], err)
    | .ok (op, r) =>
      let (ops, err) ← receiveLoop fuel r
      return (op :: ops, err)

/-- `connectAndReceive` on a connection whose reads return these chunks. The receive loop has a reader of
its own. -/
def connectAndReceive (fuel : ℕ) (chunks : List Bytes) : Go (List WireOp × ReceiveError) :=
  match Reader.readUntil 10 [] chunks with
  | none => return ([], .handshakeRead)
  | some (line, reader) =>
    if line ≠ okLine then return ([], .unexpectedHandshake line)
    else do
      let (ops, err) ← receiveLoop fuel (.new reader.chunks)
      return (ops, .readOp err)

/-- **Every sequence of operations is received**, in order and up to the end of the stream, when the
reads return these numbers of bytes and then the rest. -/
def ReceivesAll (sizes : List ℕ) : Prop :=
  ∀ ops : List SentOp, ∃ fuel,
    connectAndReceive fuel (cut sizes (okLine ++ wire ops)) =
      .ok (ops.map SentOp.toWireOp, .readOp .eof)

/-- A read ends with the handshake line. -/
def LineEndsRead (sizes : List ℕ) : Prop := ∃ i ≤ sizes.length, (sizes.take i).sum = okLine.length

/-! ## The receive loop -/

variable {r : Reader UInt8} {chunks : List Bytes}

lemma readString_of_not_mem (h : 10 ∉ r.content) : readString r = throw .eof := by
  rw [readString, Reader.readUntil_of_not_mem h]
  rfl

lemma readReplicationOp_of_readString {err : ReadError} (h : readString r = throw err) : readReplicationOp r = throw err := by
  change (readString r >>= _) = _
  rw [h]
  rfl

/-- **All operations.** -/
lemma receiveLoop_wire (ops : List SentOp) (h : r.content = wire ops) :
    receiveLoop (ops.length + 1) r = .ok (ops.map SentOp.toWireOp, .eof) := by
  induction ops generalizing r with
  | nil =>
    have hread : readReplicationOp r = throw .eof :=
      readReplicationOp_of_readString (readString_of_not_mem (by rw [h]; exact not_mem_nil))
    rw [receiveLoop, hread]
    rfl
  | cons op ops ih =>
    obtain ⟨r', hread, hcontent⟩ := yields_readReplicationOp op r (wire ops) h
    rw [receiveLoop, hread]
    change (receiveLoop (ops.length + 1) r' >>= _) = _
    rw [ih hcontent]
    rfl

/-- Successive calls of `readReplicationOp`. -/
def readReplicationOps : ℕ → ReadM (List WireOp)
  | 0 => return []
  | n + 1 => do
    let op ← readReplicationOp
    let ops ← readReplicationOps n
    return op :: ops

lemma yields_readReplicationOps (ops : List SentOp) :
    Yields (readReplicationOps ops.length) (wire ops) (ops.map SentOp.toWireOp) := by
  induction ops with
  | nil => exact Yields.pure []
  | cons op ops ih =>
    rw [wire, flatMap_cons, ← append_nil (flatMap _ ops)]
    exact (yields_readReplicationOp op).bind (ih.bind (Yields.pure _))

/-- **The wire format round-trips**: as many calls as there are operations return these, and the input
is used up, however it was cut. -/
theorem readReplicationOps_wire (sizes : List ℕ) (ops : List SentOp) :
    ∃ r, readReplicationOps ops.length (.new (cut sizes (wire ops))) =
        pure (ops.map SentOp.toWireOp, r) ∧ r.content = [] := by
  refine yields_readReplicationOps ops _ [] ?_
  rw [append_nil]
  exact flatten_cut sizes (wire ops)

lemma readReplicationOp_of_no_star (h : 42 ∉ r.content) : ∃ err, readReplicationOp r = throw err := by
  by_cases hline : 10 ∈ r.content
  · obtain ⟨line, rest, hcontent, hnot⟩ := eq_append_cons_of_mem hline
    obtain ⟨r', hread, -⟩ := yields_readString hnot r rest (by rw [hcontent]; simp)
    refine ⟨.expectedArray (line ++ [10]), ?_⟩
    have hhead : (line ++ [10]).head? ≠ some 42 := by
      intro hhead
      have hmem : (42 : UInt8) ∈ line := by simpa using mem_of_head? hhead
      rw [hcontent] at h
      exact h (mem_append_left _ hmem)
    change (readString r >>= _) = _
    rw [hread, pure_bind]
    dsimp only
    rw [if_pos hhead]
    rfl
  · exact ⟨.eof, readReplicationOp_of_readString (readString_of_not_mem hline)⟩

/-! ## The handshake -/

lemma connectAndReceive_eq {stream : Bytes} (h : chunks.flatten = okLine ++ stream) :
    ∃ i left, okLine ++ left = (chunks.take i).flatten ∧ (∀ j < i, 10 ∉ (chunks.take j).flatten) ∧
      left ++ (chunks.drop i).flatten = stream ∧
      ∀ fuel, connectAndReceive fuel chunks = (do
        let (ops, err) ← receiveLoop fuel (.new (chunks.drop i))
        return (ops, .readOp err)) := by
  have hline : (10 : UInt8) ∉ [43, 79, 75] := by decide
  have hcontent : [] ++ chunks.flatten = [43, 79, 75] ++ (10 : UInt8) :: stream := h
  obtain ⟨i, left, hread, hleft, hfirst⟩ := Reader.readUntil_eq hline hcontent
  refine ⟨i, left, hleft, hfirst, ?_, fun fuel => ?_⟩
  · have hall : okLine ++ (left ++ (chunks.drop i).flatten) = okLine ++ stream := by
      rw [← h, ← append_assoc]
      change ([43, 79, 75] ++ 10 :: left) ++ _ = _
      rw [hleft, nil_append, ← flatten_append, take_append_drop]
    exact append_cancel_left hall
  · rw [connectAndReceive, hread]
    rfl

/-- **A read that ends with the line loses nothing.** -/
lemma connectAndReceive_of_lineEnds {i : ℕ} (ops : List SentOp)
    (h : chunks.flatten = okLine ++ wire ops) (hline : (chunks.take i).flatten = okLine) :
    connectAndReceive (ops.length + 1) chunks = .ok (ops.map SentOp.toWireOp, .readOp .eof) := by
  obtain ⟨i', left, hleft, hfirst, hrest, hconnect⟩ := connectAndReceive_eq h
  have hle : i' ≤ i := by
    by_contra hlt
    exact hfirst i (by omega) (by rw [hline]; decide)
  have hnil : left = [] := by
    obtain ⟨k, rfl⟩ := Nat.exists_eq_add_of_le hle
    rw [take_add, flatten_append, ← hleft] at hline
    have hlen := congrArg length hline
    rw [length_append, length_append] at hlen
    exact length_eq_zero_iff.1 (by omega)
  rw [hnil, nil_append] at hrest
  rw [hconnect, receiveLoop_wire ops (r := .new (chunks.drop i')) (by simpa [Reader.content, Reader.new] using hrest)]
  rfl

/-! ## What is lost -/

def emptyOp : SentOp where
  expireAtNs_range := by decide
  texts_fit := by decide

lemma not_mem_tail_encode {stream : Bytes}
    (h : encodeReplicationApplyCommand emptyOp.toWireOp = 42 :: stream) : 42 ∉ stream := by
  have hnum : ∀ n, (42 : UInt8) ∉ formatNat n :=
    fun n hmem => absurd (isDigit_of_mem_formatNat hmem) (by decide)
  have hcrlf : (42 : UInt8) ∉ crlf := by decide
  have hfield : ∀ field ∈ emptyOp.fields, (42 : UInt8) ∉ encodeField field := by
    intro field hfield hmem
    have hnot : (42 : UInt8) ∉ field := by
      simp only [WireOp.fields, mem_cons, not_mem_nil, or_false] at hfield
      rcases hfield with rfl | rfl | rfl | rfl | rfl | rfl | rfl | rfl
      · decide
      · exact hnum _
      · exact hnum _
      · exact hnum _
      · exact not_mem_nil
      · exact not_mem_nil
      · exact hnum 0
      · exact not_mem_nil
    simp only [encodeField, cons_append, mem_cons, mem_append] at hmem
    rcases hmem with h | ((h | h) | h) | h
    · cases h
    · exact hnum _ h
    · exact hcrlf h
    · exact hnot h
    · exact hcrlf h
  rw [encodeReplicationApplyCommand, cons_append, cons_append] at h
  rw [← (cons.inj h).2]
  intro hmem
  rw [mem_append, mem_append, mem_flatMap] at hmem
  rcases hmem with (hmem | hmem) | ⟨field, hmem, hstar⟩
  · exact hnum _ hmem
  · exact hcrlf hmem
  · exact hfield field hmem hstar

/-- Either a read ends with the line, or the operation is lost: the first reader keeps the array header,
and nothing that follows looks like one. -/
lemma connectAndReceive_emptyOp (h : chunks.flatten = okLine ++ wire [emptyOp]) :
    (∃ i < chunks.length, (chunks.take i).flatten = okLine) ∨
      ∃ err, ∀ fuel, connectAndReceive (fuel + 1) chunks = .ok ([], .readOp err) := by
  obtain ⟨i, left, hleft, -, hrest, hconnect⟩ := connectAndReceive_eq h
  obtain ⟨stream, hstream⟩ : ∃ stream, wire [emptyOp] = 42 :: stream := ⟨_, rfl⟩
  have hstar : 42 ∉ stream := not_mem_tail_encode (by rw [← hstream, wire, flatMap_singleton])
  rw [hstream] at hrest
  cases left with
  | nil =>
    refine .inl ⟨i, ?_, by rw [← hleft, append_nil]⟩
    by_contra hi
    rw [drop_eq_nil_of_le (by omega)] at hrest
    cases hrest
  | cons c left =>
    have hcontent : 42 ∉ (Reader.new (chunks.drop i)).content := by
      intro hmem
      rw [← (cons.inj hrest).2] at hstar
      exact hstar (mem_append_right _ hmem)
    obtain ⟨err, herr⟩ := readReplicationOp_of_no_star hcontent
    refine .inr ⟨err, fun fuel => ?_⟩
    rw [hconnect, receiveLoop, herr]
    rfl

/-- **Two readers on one connection.** For every way the bytes can arrive, the replica receives every
sequence of operations exactly if a read ends with the handshake line. -/
theorem receivesAll_iff (sizes : List ℕ) : ReceivesAll sizes ↔ LineEndsRead sizes := by
  constructor
  · intro hall
    obtain ⟨fuel, hrcv⟩ := hall [emptyOp]
    rcases connectAndReceive_emptyOp (flatten_cut sizes (okLine ++ wire [emptyOp])) with
      ⟨i, hi, hline⟩ | ⟨err, hlost⟩
    · have hi : i ≤ sizes.length := by
        rw [length_cut] at hi
        omega
      refine ⟨i, hi, ?_⟩
      rw [flatten_take_cut hi] at hline
      have hlen := congrArg length hline
      have hwire : (wire [emptyOp]).length ≠ 0 := by
        intro hzero
        cases length_eq_zero_iff.1 hzero
      rw [length_take, length_append] at hlen
      omega
    · cases fuel with
      | zero =>
        obtain ⟨i, left, -, -, -, hconnect⟩ :=
          connectAndReceive_eq (flatten_cut sizes (okLine ++ wire [emptyOp]))
        rw [hconnect] at hrcv
        cases hrcv
      | succ fuel =>
        rw [hlost] at hrcv
        cases hrcv
  · rintro ⟨i, hi, hsum⟩ ops
    refine ⟨ops.length + 1, connectAndReceive_of_lineEnds (i := i) ops (flatten_cut sizes _) ?_⟩
    rw [flatten_take_cut hi, hsum, take_left]

/-- **One read brings the line and an operation.** The operation never reaches the replica. -/
theorem first_op_lost :
    ¬ ReceivesAll [] ∧
      ∀ fuel, connectAndReceive (fuel + 1) [okLine ++ wire [emptyOp]] = .ok ([], .readOp .eof) := by
  have hlost : ∀ fuel, connectAndReceive (fuel + 1) [okLine ++ wire [emptyOp]] =
      .ok ([], .readOp .eof) := fun _ => rfl
  refine ⟨fun hall => ?_, hlost⟩
  obtain ⟨fuel, hrcv⟩ := hall [emptyOp]
  cases fuel with
  | zero => cases hrcv
  | succ fuel => cases (hlost fuel).symm.trans hrcv

end AutoCache.Replication

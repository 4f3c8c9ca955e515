import AutoCache.Lib.Resp

/-!
# The reader of replies (`controllers/resp.go`)

`parseRESP` takes one reply off the connection. Texts are read by their length and lines by their end, and
arrays by recursion; whatever was written is read back, and what follows it stays on the connection.
-/

namespace AutoCache.Controllers

open Resp List

/-- The array headers are part of the input, so its length bounds the depth. -/
def parseRESP (input : Bytes) : Except ParseError (Value × Bytes) := read (input.length + 1) input

/-- A reply as it is written. Lengths are those Go can hold: a text is read with its line end into one slice. -/
inductive Reply where
  | int (n : Int64)
  | bulk (s : Bytes) (fits : s.length + 2 < 2 ^ 63)
  | nullBulk
  | simple (line : Bytes) (clean : 13 ∉ line ∧ 10 ∉ line)
  | array (count : ℕ) (fits : count < 2 ^ 63) (items : Fin count → Reply)

namespace Reply

def encode : Reply → Bytes
  | int n => writeInt n.toInt
  | bulk s _ => writeBulk s
  | nullBulk => 36 :: formatInt (-1) ++ crlf
  | simple line _ => 43 :: line ++ crlf
  | array count _ items => writeArray count ++ (finRange count).flatMap fun i => (items i).encode

/-- The value that is written; both kinds of text are Go strings. -/
def value : Reply → Value
  | int n => .int n.toInt
  | bulk s _ => .text s
  | nullBulk => .null
  | simple line _ => .text line
  | array count _ items => .array ((finRange count).map fun i => (items i).value)

lemma read_encode (r : Reply) {depth : ℕ} (h : r.encode.length ≤ depth) (rest : Bytes) :
    read (depth + 1) (r.encode ++ rest) = .ok (r.value, rest) := by
  induction r generalizing depth rest with
  | int n => exact read_writeInt n.le_toInt n.toInt_lt rest
  | bulk s fits => exact read_writeBulk (by omega) rest
  | nullBulk =>
    have hsplit : nullBulk.encode ++ rest = 36 :: (formatInt (-1) ++ crlf ++ rest) := rfl
    rw [hsplit, Resp.read, readNumber_formatInt (by decide) (by decide)]
    rfl
  | simple line clean =>
    have hsplit : (simple line clean).encode ++ rest = 43 :: (line ++ crlf ++ rest) := rfl
    rw [hsplit, Resp.read, readLine_append clean.2]
    rfl
  | array count fits items ih =>
    rw [encode, length_append] at h
    have hheader := three_le_length_writeArray count
    obtain ⟨depth, rfl⟩ : ∃ d, depth = d + 1 := ⟨depth - 1, by omega⟩
    have hread : ∀ i ∈ finRange count, ∀ rest, Resp.read (depth + 1) ((items i).encode ++ rest) =
        .ok ((items i).value, rest) := by
      intro i hi
      -- an item is no longer than all of them
      have hmem : (items i).encode ∈ (finRange count).map fun i => (items i).encode :=
        mem_map_of_mem hi
      have hle := (sublist_flatten_of_mem hmem).length_le
      rw [← flatMap_def] at hle
      exact ih i (by omega)
    have hitems := readItems_flatMap hread rest
    rw [length_finRange] at hitems
    rw [encode, append_assoc]
    exact read_writeArray fits hitems

/-- **The reader inverts the writer**, and leaves what follows the reply. -/
theorem parseRESP_encode (r : Reply) (rest : Bytes) :
    parseRESP (r.encode ++ rest) = .ok (r.value, rest) := by
  refine r.read_encode ?_ rest
  rw [length_append]
  omega

end Reply

end AutoCache.Controllers

import Mathlib.Algebra.GroupWithZero.Nat
import Mathlib.Data.List.TakeWhile

/-!
# Buffered readers

The other side of a connection sends a sequence of items, and each read returns the next chunk of
them. A buffered reader takes one chunk at a time into its buffer and serves requests from there: the
items up to a delimiter, or a number of items. What it serves depends on the items that are still to
come, `content`, and not on how they were cut into chunks. What it has in its buffer is gone for
everybody else who reads from the connection.
-/

namespace AutoCache

open List

/-- A buffer, and the chunks that the reads to come will return. -/
structure Reader (α : Type) where
  buffer : List α
  chunks : List (List α)

namespace Reader

variable {α : Type} [DecidableEq α]

def new (chunks : List (List α)) : Reader α := ⟨[], chunks⟩

/-- All items that are still to come. -/
def content (r : Reader α) : List α := r.buffer ++ r.chunks.flatten

/-- The items up to the first `d`, this one included; `none` at the end of the input. -/
def readUntil (d : α) (buffer : List α) : List (List α) → Option (List α × Reader α)
  | [] =>
    if d ∈ buffer then
      some (buffer.takeWhile (· ≠ d) ++ [d], ⟨(buffer.dropWhile (· ≠ d)).tail, []⟩)
    else none
  | chunk :: chunks =>
    if d ∈ buffer then
      some (buffer.takeWhile (· ≠ d) ++ [d], ⟨(buffer.dropWhile (· ≠ d)).tail, chunk :: chunks⟩)
    else readUntil d (buffer ++ chunk) chunks

/-- Exactly `n` items; `none` when the input ends before. -/
def readFull (n : ℕ) (buffer : List α) : List (List α) → Option (List α × Reader α)
  | [] => if n ≤ buffer.length then some (buffer.take n, ⟨buffer.drop n, []⟩) else none
  | chunk :: chunks =>
    if n ≤ buffer.length then some (buffer.take n, ⟨buffer.drop n, chunk :: chunks⟩)
    else readFull n (buffer ++ chunk) chunks

variable {d : α} {chunks : List (List α)}

lemma takeWhile_line {line : List α} (hline : d ∉ line) (rest : List α) :
    (line ++ d :: rest).takeWhile (· ≠ d) = line ∧ (line ++ d :: rest).dropWhile (· ≠ d) = d :: rest := by
  have hne : ∀ x ∈ line, decide (x ≠ d) = true :=
    fun x hx => decide_eq_true fun heq => hline (heq ▸ hx)
  rw [takeWhile_append_of_pos hne, dropWhile_append_of_pos hne]
  simp

lemma split_buffer {line rest buffer tail : List α} (hline : d ∉ line)
    (h : buffer ++ tail = line ++ d :: rest) (hd : d ∈ buffer) :
    buffer.takeWhile (· ≠ d) = line ∧ line ++ d :: (buffer.dropWhile (· ≠ d)).tail = buffer := by
  obtain ⟨before, after, rfl, hbefore⟩ := eq_append_cons_of_mem hd
  rw [append_assoc, cons_append] at h
  have htake := congrArg (takeWhile (· ≠ d)) h
  rw [(takeWhile_line hbefore _).1, (takeWhile_line hline _).1] at htake
  rw [(takeWhile_line hbefore _).1, (takeWhile_line hbefore _).2, htake]
  exact ⟨rfl, rfl⟩

/-- **Lines.** When the input goes on with `line` and the delimiter, these are returned. The reader
has then taken the first chunks that bring the delimiter, and no more. -/
lemma readUntil_eq {line rest : List α} (hline : d ∉ line) {buffer : List α}
    (h : buffer ++ chunks.flatten = line ++ d :: rest) :
    ∃ i left, readUntil d buffer chunks = some (line ++ [d], ⟨left, chunks.drop i⟩) ∧
      line ++ d :: left = buffer ++ (chunks.take i).flatten ∧
      ∀ j < i, d ∉ buffer ++ (chunks.take j).flatten := by
  have hread : ∀ {buffer : List α} {chunks : List (List α)}, buffer ++ chunks.flatten = line ++ d :: rest → d ∈ buffer →
      ∃ i left, some (buffer.takeWhile (· ≠ d) ++ [d],
          (⟨(buffer.dropWhile (· ≠ d)).tail, chunks⟩ : Reader α)) = some (line ++ [d], ⟨left, chunks.drop i⟩) ∧
        line ++ d :: left = buffer ++ (chunks.take i).flatten ∧
        ∀ j < i, d ∉ buffer ++ (chunks.take j).flatten := by
    intro buffer chunks h hd
    obtain ⟨htake, hsplit⟩ := split_buffer hline h hd
    rw [htake]
    exact ⟨0, _, rfl, by simpa using hsplit, fun j hj => absurd hj (Nat.not_lt_zero j)⟩
  induction chunks generalizing buffer with
  | nil =>
    have hd : d ∈ buffer := by
      rw [flatten_nil, append_nil] at h
      simp [h]
    rw [readUntil, if_pos hd]
    exact hread h hd
  | cons chunk chunks ih =>
    unfold readUntil
    split
    · next hd => exact hread h hd
    rename_i hd
    have hnext : (buffer ++ chunk) ++ chunks.flatten = line ++ d :: rest := by
      rwa [append_assoc, ← flatten_cons]
    obtain ⟨i, left, heq, hleft, hfirst⟩ := ih hnext
    refine ⟨i + 1, left, heq, ?_, fun j hj => ?_⟩
    · rw [hleft, take_succ_cons, flatten_cons, append_assoc]
    · cases j with
      | zero => simpa using hd
      | succ j =>
        rw [take_succ_cons, flatten_cons, ← append_assoc]
        exact hfirst j (by omega)

lemma readUntil_of_content {line rest : List α} (hline : d ∉ line) {r : Reader α} (h : r.content = line ++ d :: rest) :
    ∃ r', readUntil d r.buffer r.chunks = some (line ++ [d], r') ∧ r'.content = rest := by
  obtain ⟨i, left, hread, hleft, -⟩ := readUntil_eq hline h
  refine ⟨_, hread, ?_⟩
  have hall : line ++ d :: (left ++ (r.chunks.drop i).flatten) = line ++ d :: rest := by
    rw [← cons_append, ← append_assoc, hleft, append_assoc, ← flatten_append, take_append_drop]
    exact h
  exact tail_eq_of_cons_eq (append_cancel_left hall)

lemma readUntil_of_not_mem {buffer : List α} (h : d ∉ buffer ++ chunks.flatten) : readUntil d buffer chunks = none := by
  induction chunks generalizing buffer with
  | nil =>
    rw [readUntil, if_neg]
    simpa using h
  | cons chunk chunks ih =>
    rw [mem_append, not_or] at h
    rw [readUntil, if_neg h.1]
    refine ih ?_
    rw [append_assoc, mem_append, not_or]
    exact h

omit [DecidableEq α] in
/-- **Blocks.** -/
lemma readFull_of_content {block rest buffer : List α} (h : buffer ++ chunks.flatten = block ++ rest) :
    ∃ r', readFull block.length buffer chunks = some (block, r') ∧ r'.content = rest := by
  have hsplit : ∀ {buffer tail : List α}, buffer ++ tail = block ++ rest → block.length ≤ buffer.length →
      buffer.take block.length = block ∧ buffer.drop block.length ++ tail = rest := by
    intro buffer tail h hle
    have htake := congrArg (take block.length) h
    have hdrop := congrArg (drop block.length) h
    rw [take_append_of_le_length hle, take_left'] at htake
    rw [drop_append_of_le_length hle, drop_left'] at hdrop
    · exact ⟨htake, hdrop⟩
    all_goals rfl
  induction chunks generalizing buffer with
  | nil =>
    have hle : block.length ≤ buffer.length := by
      have hlen := congrArg length h
      simp at hlen
      omega
    obtain ⟨htake, hdrop⟩ := hsplit h hle
    rw [readFull, if_pos hle, htake]
    exact ⟨_, rfl, hdrop⟩
  | cons chunk chunks ih =>
    unfold readFull
    split
    · next hle =>
      obtain ⟨htake, hdrop⟩ := hsplit h hle
      rw [htake]
      exact ⟨_, rfl, hdrop⟩
    · refine ih ?_
      rwa [append_assoc, ← flatten_cons]

end Reader

/-! ## Cuts -/

/-- The chunks of a sequence when the reads return these numbers of items, and then the rest. -/
def cut {α : Type} : List ℕ → List α → List (List α)
  | [], xs => [xs]
  | n :: ns, xs => xs.take n :: cut ns (xs.drop n)

variable {α : Type}

lemma flatten_cut (ns : List ℕ) (xs : List α) : (cut ns xs).flatten = xs := by
  induction ns generalizing xs with
  | nil => simp [cut]
  | cons n ns ih => rw [cut, flatten_cons, ih, take_append_drop]

lemma length_cut (ns : List ℕ) (xs : List α) : (cut ns xs).length = ns.length + 1 := by
  induction ns generalizing xs with
  | nil => rfl
  | cons n ns ih => rw [cut, length_cons, ih, length_cons]

lemma flatten_take_cut {ns : List ℕ} {i : ℕ} (hi : i ≤ ns.length) (xs : List α) :
    ((cut ns xs).take i).flatten = xs.take (ns.take i).sum := by
  induction ns generalizing i xs with
  | nil =>
    obtain rfl : i = 0 := by simpa using hi
    simp
  | cons n ns ih =>
    cases i with
    | zero => simp
    | succ i =>
      rw [cut, take_succ_cons, flatten_cons, ih (by simpa using hi), take_succ_cons, sum_cons, take_add]

end AutoCache

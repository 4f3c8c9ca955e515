import Mathlib.Data.List.Basic
import Mathlib.Data.Nat.Basic

/-!
# Paging through numbered lists

A collection is kept in numbered lists and read page by page: a page is filled with the elements
that match, list after list, until it is full or the lists are used up. The place where it stopped,
the number of a list and a position in it, is where the next page starts.

What a page does is said by the elements it passes over (`page_eq`): they are what lies ahead of
the place it starts at, less what lies ahead of the place it stops at. The lists may be others at
the next page, so nothing here is about more than one page.
-/

namespace AutoCache.Pages

open List

variable {α : Type}

/-- Where a page starts. -/
@[ext] structure Place where
  list : ℕ
  pos : ℕ

/-! ## What lies ahead -/

/-- The elements of the lists from a position of the first one on. -/
def ahead : List (List α) → ℕ → List α
  | [], _ => []
  | l :: ls, pos => l.drop pos ++ ls.flatten

def Place.rest (lists : List (List α)) (c : Place) : List α := ahead (lists.drop c.list) c.pos

variable (ls : List (List α))

@[simp] lemma ahead_zero : ahead ls 0 = ls.flatten := by
  cases ls with
  | nil => rfl
  | cons l ls => simp [ahead]

lemma length_ahead_le (pos : ℕ) : (ahead ls pos).length ≤ ls.flatten.length := by
  cases ls with
  | nil => rfl
  | cons l ls =>
    rw [ahead, flatten_cons, length_append, length_append, length_drop]
    omega

def Inside (ls : List (List α)) (pos : ℕ) : Prop :=
  ∃ l ls', ls = l :: ls' ∧ (pos = 0 ∨ pos < l.length)

/-- The last list ends with an element that matches. -/
def EndsOn (p : α → Bool) (ls : List (List α)) : Prop :=
  ∃ ls' l a, ls = ls' ++ [l ++ [a]] ∧ p a = true

variable {p : α → Bool} {lists : List (List α)} {c d : Place}

lemma Inside.filter_ahead_ne_nil {ls : List (List α)} {pos : ℕ}
    (h : Inside ls pos) (hends : EndsOn p ls) : (ahead ls pos).filter p ≠ [] := by
  obtain ⟨l, ls', rfl, hpos⟩ := h
  obtain ⟨init, m, a, heq, ha⟩ := hends
  have hmem : a ∈ ahead (l :: ls') pos := by
    cases init with
    | nil =>
      -- the only list is the last one
      obtain ⟨rfl, rfl⟩ : l = m ++ [a] ∧ ls' = [] := by simpa using heq
      have hle : pos ≤ m.length := by
        simp only [length_append, length_singleton] at hpos
        omega
      simp [ahead, drop_append_of_le_length hle]
    | cons x init =>
      obtain ⟨rfl, rfl⟩ : l = x ∧ ls' = init ++ [m ++ [a]] := by simpa using heq
      simp [ahead]
  intro hnil
  exact filter_eq_nil_iff.1 hnil a hmem ha

lemma EndsOn.of_append {ls ls' : List (List α)} (h : EndsOn p (ls ++ ls')) (hne : ls' ≠ []) : EndsOn p ls' := by
  obtain ⟨init, l, a, heq, ha⟩ := h
  obtain ⟨m, x, rfl⟩ := (eq_nil_or_concat' ls').resolve_left hne
  have hlast := append_inj_right' ((append_assoc ls m [x]).trans heq) rfl
  obtain rfl : x = l ++ [a] := by simpa using hlast
  exact ⟨m, l, a, rfl, ha⟩

lemma EndsOn.append {ls : List (List α)} (h : EndsOn p ls) (ls' : List (List α)) : EndsOn p (ls' ++ ls) := by
  obtain ⟨init, m, a, rfl, ha⟩ := h
  exact ⟨ls' ++ init, m, a, (append_assoc ls' init _).symm, ha⟩

/-! ## Filling a page -/

section Fill

variable (p : α → Bool) (count : ℕ)

/-- The elements of one list, until the page is full: the page and the position reached. -/
def fill : List α → List α → ℕ → List α × ℕ
  | [], page, pos => (page, pos)
  | a :: l, page, pos =>
    if page.length < count then fill l (if p a then page ++ [a] else page) (pos + 1)
    else (page, pos)

/-- The lists from the `i`th on, until the page is full: the page and the place reached. Where a
list is not used up, the page is full. -/
def fillAll : List (List α) → List α → ℕ → ℕ → List α × ℕ × ℕ
  | [], page, i, pos => (page, i, pos)
  | l :: ls, page, i, pos =>
    if page.length < count then
      let (page, pos) := fill p count (l.drop pos) page pos
      if pos ≥ l.length then fillAll ls page (i + 1) 0 else (page, i, pos)
    else (page, i, pos)

/-- A page from a place on, and the next place if there is one. -/
def page (lists : List (List α)) (c : Place) : List α × Option Place :=
  let (result, i, pos) := fillAll p count (lists.drop c.list) [] c.list c.pos
  if i ≥ lists.length then (result, none) else (result, some ⟨i, pos⟩)

end Fill

variable {p : α → Bool} {count : ℕ}

/-- Elements were passed over, and those that match went to the page. Nothing is passed once the
page is full, so if that filled the page, the last of them is a match. -/
structure Passed (p : α → Bool) (count : ℕ) (before after passed : List α) : Prop where
  page_eq : after = before ++ passed.filter p
  length_le : after.length ≤ count
  stops : before.length = count → passed = []
  ends : before.length < count → after.length = count → ∃ init a, passed = init ++ [a] ∧ p a = true

lemma Passed.append {a b c x y : List α} (h : Passed p count a b x) (h' : Passed p count b c y) :
    Passed p count a c (x ++ y) where
  page_eq := by rw [h'.page_eq, h.page_eq, filter_append, append_assoc]
  length_le := h'.length_le
  stops := by
    intro hfull
    obtain rfl := h.stops hfull
    have hb : b = a := by simpa using h.page_eq
    rw [h'.stops (hb ▸ hfull), append_nil]
  ends := by
    intro hlt hfull
    rcases Nat.lt_or_eq_of_le h.length_le with hb | hb
    · obtain ⟨init, e, rfl, he⟩ := h'.ends hb hfull
      exact ⟨x ++ init, e, (append_assoc x init [e]).symm, he⟩
    · obtain ⟨init, e, rfl, he⟩ := h.ends hlt hb
      rw [h'.stops hb, append_nil]
      exact ⟨init, e, rfl, he⟩

lemma Passed.refl {before : List α} (hle : before.length ≤ count) : Passed p count before before [] where
  page_eq := by simp
  length_le := hle
  stops := fun _ => rfl
  ends := fun hlt hfull => absurd hfull (Nat.ne_of_lt hlt)

lemma Passed.single {before : List α} (hlt : before.length < count) (a : α) :
    Passed p count before (if p a then before ++ [a] else before) [a] where
  page_eq := by cases ha : p a <;> simp [ha]
  length_le := by
    split
    · rw [length_append, length_singleton]
      exact hlt
    · exact Nat.le_of_lt hlt
  stops := fun hfull => absurd hfull (Nat.ne_of_lt hlt)
  ends := by
    intro _ hfull
    refine ⟨[], a, rfl, ?_⟩
    by_contra ha
    rw [if_neg ha] at hfull
    exact absurd hfull (Nat.ne_of_lt hlt)

lemma fill_passed (l before : List α) (pos : ℕ) (hle : before.length ≤ count) :
    ∃ passed left after, l = passed ++ left ∧ fill p count l before pos = (after, pos + passed.length) ∧
      Passed p count before after passed ∧ (left ≠ [] → after.length = count) := by
  induction l generalizing before pos with
  | nil => exact ⟨[], [], before, rfl, rfl, .refl hle, fun h => absurd rfl h⟩
  | cons a l ih =>
    by_cases hlt : before.length < count
    · have ha := Passed.single (p := p) hlt a
      obtain ⟨passed, left, after, rfl, hfill, hpassed, hfull⟩ := ih _ (pos + 1) ha.length_le
      refine ⟨a :: passed, left, after, rfl, ?_, ha.append hpassed, hfull⟩
      rw [fill, if_pos hlt, hfill, length_cons]
      simp only [Prod.mk.injEq, true_and]
      omega
    · refine ⟨[], a :: l, before, rfl, ?_, .refl hle, fun _ => ?_⟩
      · rw [fill, if_neg hlt]
        rfl
      · exact le_antisymm hle (not_lt.1 hlt)

/-- From a position of a list, what is passed is what lies between the two positions. -/
lemma fill_drop (l before : List α) (pos : ℕ) (hle : before.length ≤ count) :
    ∃ passed after pos', fill p count (l.drop pos) before pos = (after, pos') ∧
      l.drop pos = passed ++ l.drop pos' ∧ Passed p count before after passed ∧
      (pos' < l.length → after.length = count) := by
  obtain ⟨passed, left, after, heq, hfill, hpassed, hfull⟩ :=
    fill_passed (p := p) (l.drop pos) before pos hle
  refine ⟨passed, after, _, hfill, ?_, hpassed, ?_⟩
  · rw [← drop_drop, heq, drop_left]
  · intro hlt
    refine hfull ?_
    rintro rfl
    have hlen := congrArg length heq
    simp only [length_drop, append_nil] at hlen
    omega

/-- What the loop over the lists does: some lists are `done`, the others are `left`. -/
structure Walked (p : α → Bool) (count : ℕ) (ls : List (List α)) (pos : ℕ) (before after : List α)
    (done left : List (List α)) (pos' : ℕ) (passed : List α) : Prop where
  lists_eq : ls = done ++ left
  ahead_eq : ahead ls pos = passed ++ ahead left pos'
  passed : Passed p count before after passed
  stops : before.length = count → done = []
  full : left ≠ [] → after.length = count
  inside : left ≠ [] → before.length < count ∨ pos = 0 → Inside left pos'
  endsOn : left = [] → before.length < count → after.length = count → EndsOn p ls

lemma fillAll_walked (before : List α) (i pos : ℕ) (hle : before.length ≤ count) :
    ∃ after done left pos' passed, fillAll p count ls before i pos = (after, i + done.length, pos') ∧
      Walked p count ls pos before after done left pos' passed := by
  induction ls generalizing before i pos with
  | nil =>
    refine ⟨before, [], [], pos, [], rfl, rfl, rfl, .refl hle, fun _ => rfl, by simp, by simp, ?_⟩
    exact fun _ hlt hfull => absurd hfull (Nat.ne_of_lt hlt)
  | cons l ls ih =>
    by_cases hlt : before.length < count
    · obtain ⟨passed, after, pos', hfill, hdrop, hpassed, hfull⟩ :=
        fill_drop (p := p) l before pos hle
      by_cases hpos : pos' ≥ l.length
      · -- the list is used up, and the loop goes on with the others
        obtain ⟨after', done, left, pos'', passed', heq, hw⟩ :=
          ih after (i + 1) 0 hpassed.length_le
        have hall : fillAll p count (l :: ls) before i pos = fillAll p count ls after (i + 1) 0 := by
          rw [fillAll, if_pos hlt, hfill]
          exact if_pos hpos
        rw [drop_eq_nil_of_le hpos, append_nil] at hdrop
        refine ⟨after', l :: done, left, pos'', passed ++ passed', ?_, ?_, ?_, ?_, ?_, hw.full, ?_, ?_⟩
        · rw [hall, heq, length_cons]
          simp only [Prod.mk.injEq, and_true, true_and]
          omega
        · rw [hw.lists_eq, cons_append]
        · rw [ahead, hdrop, append_assoc, ← hw.ahead_eq, ahead_zero]
        · exact hpassed.append hw.passed
        · exact fun hfull => absurd hfull (Nat.ne_of_lt hlt)
        · exact fun hne _ => hw.inside hne (.inr rfl)
        · intro hleft _ hfull'
          rcases Nat.lt_or_eq_of_le hpassed.length_le with hlt' | hfull
          · exact (hw.endsOn hleft hlt' hfull').append [l]
          · -- the page was full at the end of this list, so no list came after it
            have hnil : ls = [] := by rw [hw.lists_eq, hw.stops hfull, hleft, append_nil]
            obtain ⟨init, a, rfl, ha⟩ := hpassed.ends hlt hfull
            refine ⟨[], l.take pos ++ init, a, ?_, ha⟩
            rw [hnil, append_assoc, ← hdrop, take_append_drop]
            rfl
      · -- the page is full
        have hall : fillAll p count (l :: ls) before i pos = (after, i, pos') := by
          rw [fillAll, if_pos hlt, hfill]
          exact if_neg hpos
        refine ⟨after, [], l :: ls, pos', passed, hall, rfl, ?_, hpassed, fun _ => rfl, ?_, ?_, by simp⟩
        · rw [ahead, ahead, hdrop, append_assoc]
        · exact fun _ => hfull (not_le.1 hpos)
        · exact fun _ _ => ⟨l, ls, rfl, .inr (not_le.1 hpos)⟩
    · have hall : fillAll p count (l :: ls) before i pos = (before, i, pos) := by
        rw [fillAll, if_neg hlt]
      refine ⟨before, [], l :: ls, pos, [], hall, rfl, rfl, .refl hle, fun _ => rfl, ?_, ?_, by simp⟩
      · exact fun _ => le_antisymm hle (not_lt.1 hlt)
      · rintro _ (h | rfl)
        · exact absurd h hlt
        · exact ⟨l, ls, rfl, .inl rfl⟩

/-! ## A page -/

def restOf (lists : List (List α)) : Option Place → List α
  | none => []
  | some c => c.rest lists

/-- The next page can start here. -/
def Place.Inside (lists : List (List α)) (c : Place) : Prop :=
  Pages.Inside (lists.drop c.list) c.pos

lemma Place.Inside.list_lt {c : Place} (h : c.Inside lists) : c.list < lists.length := by
  obtain ⟨l, ls, heq, -⟩ := h
  by_contra hge
  rw [drop_eq_nil_of_le (not_lt.1 hge)] at heq
  cases heq

lemma Place.Inside.pos_lt {c : Place} {n : ℕ} (h : c.Inside lists) (hn : ∀ l ∈ lists, l.length < n) : c.pos < n := by
  obtain ⟨l, ls, heq, hpos⟩ := h
  have hmem : l ∈ lists := mem_of_mem_drop (heq ▸ mem_cons_self)
  have := hn l hmem
  omega

lemma Place.Inside.filter_rest_ne_nil {c : Place} (h : c.Inside lists)
    (hends : EndsOn p lists) : (c.rest lists).filter p ≠ [] := by
  have hne : lists.drop c.list ≠ [] := by
    obtain ⟨l, ls, heq, -⟩ := h
    simp [heq]
  rw [← take_append_drop c.list lists] at hends
  exact h.filter_ahead_ne_nil (hends.of_append hne)

structure PageSpec (p : α → Bool) (count : ℕ) (lists : List (List α)) (c : Place)
    (result : List α) (next : Option Place) (passed : List α) : Prop where
  rest_eq : c.rest lists = passed ++ restOf lists next
  passed : Passed p count [] result passed
  full : ∀ c', next = some c' → result.length = count
  inside : ∀ c', next = some c' → c'.Inside lists
  /-- A place after the start is another one than the start. -/
  moves : ∀ c', next = some c' → c'.list = 0 → c'.pos ≠ 0
  /-- A full page is the last one only if it ends the last list. -/
  endsOn : next = none → result.length = count → EndsOn p lists

theorem page_spec (lists : List (List α)) (c : Place) (hcnt : 0 < count) :
    ∃ result next passed, page p count lists c = (result, next) ∧ PageSpec p count lists c result next passed := by
  obtain ⟨after, done, left, pos', passed, hall, hw⟩ :=
    fillAll_walked (p := p) (lists.drop c.list) [] c.list c.pos (Nat.zero_le count)
  have hlen : lists.length - c.list = done.length + left.length := by
    rw [← length_drop, hw.lists_eq, length_append]
  by_cases hend : c.list + done.length ≥ lists.length
  · have hpage : page p count lists c = (after, none) := by
      rw [page, hall]
      exact if_pos hend
    have hleft : left = [] := eq_nil_of_length_eq_zero (by omega)
    refine ⟨after, none, passed, hpage, ?_, hw.passed, by simp, by simp, by simp, ?_⟩
    · rw [Place.rest, hw.ahead_eq, hleft]
      rfl
    · intro _ hfull
      have hends := hw.endsOn hleft hcnt hfull
      rw [← take_append_drop c.list lists]
      exact hends.append _
  · have hpage : page p count lists c = (after, some ⟨c.list + done.length, pos'⟩) := by
      rw [page, hall]
      exact if_neg hend
    have hne : left ≠ [] := by
      rintro rfl
      simp only [length_nil] at hlen
      omega
    have hdrop : lists.drop (c.list + done.length) = left := by
      rw [← drop_drop, hw.lists_eq, drop_left]
    refine ⟨after, some ⟨c.list + done.length, pos'⟩, passed, hpage, ?_, hw.passed, ?_, ?_, ?_, by simp⟩
    · rw [Place.rest, hw.ahead_eq, restOf, Place.rest, hdrop]
    · exact fun _ _ => hw.full hne
    · rintro c' ⟨⟩
      have hin := hw.inside hne (.inl hcnt)
      rwa [← hdrop] at hin
    · rintro c' ⟨⟩ hzero (rfl : pos' = 0)
      -- the first list was left at its start, although something was passed
      obtain ⟨init, a, rfl, -⟩ := hw.passed.ends hcnt (hw.full hne)
      obtain ⟨hlist, hdone⟩ : c.list = 0 ∧ done = [] := by
        simpa using hzero
      have heq := congrArg length hw.ahead_eq
      rw [hw.lists_eq, hdone, nil_append, ahead_zero] at heq
      have hle := length_ahead_le left c.pos
      simp only [length_append, length_singleton] at heq
      omega

/-! ## Places in order -/

/-- `d` is at `c` or behind it. -/
def Place.Before (c d : Place) : Prop := c.list < d.list ∨ c.list = d.list ∧ c.pos ≤ d.pos

/-- The place after `d` in the same list. -/
def Place.succ (d : Place) : Place := ⟨d.list, d.pos + 1⟩

lemma Place.succ_before_of_not_before (h : ¬ c.Before d) : d.succ.Before c := by
  unfold Before succ at *
  dsimp only
  omega

lemma ahead_suffix_flatten (pos : ℕ) : ahead ls pos <:+ ls.flatten := by
  cases ls with
  | nil => exact suffix_refl _
  | cons l ls => exact ⟨l.take pos, by simp [ahead, ← append_assoc]⟩

lemma flatten_drop_suffix (lists : List (List α)) {m n : ℕ} (h : m ≤ n) :
    (lists.drop n).flatten <:+ (lists.drop m).flatten := by
  obtain ⟨k, rfl⟩ := Nat.exists_eq_add_of_le h
  refine ⟨((lists.drop m).take k).flatten, ?_⟩
  rw [← flatten_append, ← drop_drop, take_append_drop]

lemma Place.Before.rest_suffix (h : c.Before d) (lists : List (List α)) : d.rest lists <:+ c.rest lists := by
  rcases h with hlt | ⟨heq, hle⟩
  · have hd := (ahead_suffix_flatten (lists.drop d.list) d.pos).trans (flatten_drop_suffix lists (Nat.succ_le_of_lt hlt))
    refine hd.trans ?_
    rw [Place.rest, Nat.succ_eq_add_one, ← drop_drop]
    cases lists.drop c.list with
    | nil => exact suffix_refl _
    | cons l ls => exact ⟨l.drop c.pos, rfl⟩
  · rw [Place.rest, Place.rest, ← heq]
    cases lists.drop c.list with
    | nil => exact suffix_refl _
    | cons l ls =>
      obtain ⟨k, hk⟩ := Nat.exists_eq_add_of_le hle
      refine ⟨(l.drop c.pos).take k, ?_⟩
      rw [ahead, ahead, hk, ← drop_drop, ← append_assoc, take_append_drop]

lemma PageSpec.passes {result passed : List α} {next : Option Place} {a : α} (h : PageSpec p count lists c result next passed)
    (hd : c.Before d) (hrest : d.rest lists = a :: d.succ.rest lists) (ha : p a = true) :
    a ∈ result ∨ ∃ c', next = some c' ∧ c'.Before d := by
  by_cases hmem : a ∈ passed
  · refine .inl ?_
    rw [h.passed.page_eq]
    exact mem_filter.2 ⟨hmem, ha⟩
  · obtain ⟨u, hu⟩ := hd.rest_suffix lists
    -- `a` is not passed, so all that lies ahead of it is left
    obtain ⟨w, hw⟩ : ∃ w, restOf lists next = w ++ d.rest lists := by
      rcases append_eq_append_iff.1 (h.rest_eq.symm.trans hu.symm) with
        ⟨w, -, hw⟩ | ⟨w, hpassed, hw⟩
      · exact ⟨w, hw⟩
      · cases w with
        | nil => exact ⟨[], hw.symm⟩
        | cons b w =>
          rw [hrest, cons_append] at hw
          obtain rfl := head_eq_of_cons_eq hw
          exact absurd (by simp [hpassed]) hmem
    cases next with
    | none => simp [restOf, hrest] at hw
    | some c' =>
      refine .inr ⟨c', rfl, ?_⟩
      by_contra hnot
      have hle := ((Place.succ_before_of_not_before hnot).rest_suffix lists).length_le
      rw [show c'.rest lists = w ++ d.rest lists from hw, hrest] at hle
      simp only [length_append, length_cons] at hle
      omega

/-! ## Page after page -/

lemma PageSpec.length_rest_lt {c c' : Place} {result passed : List α}
    {next : Option Place} (h : PageSpec p count lists c result next passed) (hcnt : 0 < count)
    (hnext : next = some c') : (c'.rest lists).length < (c.rest lists).length := by
  obtain ⟨init, a, rfl, -⟩ := h.passed.ends hcnt (h.full c' hnext)
  rw [h.rest_eq, hnext, restOf]
  simp only [length_append, length_singleton]
  omega

theorem Place.Inside.induction {motive : Place → Prop} (hcnt : 0 < count) (step : ∀ c, c.Inside lists →
      (∀ result c', page p count lists c = (result, some c') → motive c') → motive c)
    (c : Place) (hc : c.Inside lists) : motive c := by
  induction hn : (c.rest lists).length using Nat.strong_induction_on generalizing c with
  | _ n ih =>
    obtain ⟨result, next, passed, hpage, hspec⟩ := page_spec (p := p) lists c hcnt
    refine step c hc fun result' c' hpage' => ?_
    have hnext : next = some c' := congrArg Prod.snd (hpage.symm.trans hpage')
    have hlt := hspec.length_rest_lt hcnt hnext
    exact ih _ (hn ▸ hlt) c' (hspec.inside c' hnext) rfl

end AutoCache.Pages

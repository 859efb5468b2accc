/-
# Windows of lists

A window is a run of elements of a list, given by its start and its length;
pasting replaces such a run by another of the same length.  Records are
windows of blocks and attributes are windows of records, so that both levels
rest on the two facts here: a pasted window reads back, and a window apart
from it is left alone.
-/
import Mathlib
import RecordPool.Checked

namespace RecordPool

variable {α : Type}

/-- The `count` elements of a list from position `start` on. -/
def window (xs : List α) (start count : Nat) : List α :=
  (xs.drop start).take count

/-- The list with `values` over the elements from position `start` on. -/
def paste (xs : List α) (start : Nat) (values : List α) : List α :=
  xs.take start ++ values ++ xs.drop (start + values.length)

/-- The elements of a window, by position. -/
theorem getElem?_window (xs : List α) (start count i : Nat) :
    (window xs start count)[i]? = if i < count then xs[start + i]? else none := by
  rw [window, List.getElem?_take]
  split
  · rw [List.getElem?_drop]
  · rfl

/-- A window inside a list is full. -/
theorem length_window {xs : List α} {start count : Nat} (h : start + count ≤ xs.length) :
    (window xs start count).length = count := by
  rw [window, List.length_take, List.length_drop]
  omega

/-- Windows are equal when their elements are. -/
theorem window_congr {xs ys : List α} {start start' count : Nat}
    (h : ∀ i < count, xs[start + i]? = ys[start' + i]?) :
    window xs start count = window ys start' count := by
  apply List.ext_getElem?
  intro i
  rw [getElem?_window, getElem?_window]
  split
  · exact h i ‹_›
  · rfl

/-- Pasting keeps the length. -/
theorem length_paste {xs values : List α} {start : Nat}
    (h : start + values.length ≤ xs.length) : (paste xs start values).length = xs.length := by
  simp only [paste, List.length_append, List.length_take, List.length_drop]
  omega

/-- Replacing elements of a list that has them pastes the new ones. -/
theorem splice_eq_ok {xs values : List α} {start : Nat}
    (h : start + values.length ≤ xs.length) :
    splice xs start values = .ok (paste xs start values) := by
  rw [splice, if_pos h]
  rfl

/-- A pasted list, by position. -/
theorem getElem?_paste {xs values : List α} {start : Nat}
    (h : start + values.length ≤ xs.length) (i : Nat) :
    (paste xs start values)[i]? =
      if start ≤ i ∧ i < start + values.length then values[i - start]? else xs[i]? := by
  have hstart : (xs.take start).length = start := by
    rw [List.length_take]
    omega
  rw [paste, List.append_assoc]
  by_cases h1 : i < start
  · rw [List.getElem?_append_left (by omega), List.getElem?_take, if_pos h1,
      if_neg (by omega)]
  · rw [List.getElem?_append_right (by omega), hstart]
    by_cases h2 : i < start + values.length
    · rw [List.getElem?_append_left (by omega), if_pos ⟨by omega, h2⟩]
    · rw [List.getElem?_append_right (by omega), List.getElem?_drop, if_neg (by omega)]
      congr 1
      omega

/-- **A pasted window reads back.** -/
theorem window_paste {xs values : List α} {start : Nat}
    (h : start + values.length ≤ xs.length) :
    window (paste xs start values) start values.length = values := by
  apply List.ext_getElem?
  intro i
  rw [getElem?_window]
  split
  · rw [getElem?_paste h, if_pos (by omega), Nat.add_sub_cancel_left]
  · rw [List.getElem?_eq_none (by omega)]

/-- **A window apart from a pasted one is left alone.** -/
theorem window_paste_of_apart {xs values : List α} {start other count : Nat}
    (h : start + values.length ≤ xs.length)
    (apart : other + count ≤ start ∨ start + values.length ≤ other) :
    window (paste xs start values) other count = window xs other count := by
  apply window_congr
  intro i hi
  rw [getElem?_paste h, if_neg (by omega)]

/-- Pasting nothing changes nothing. -/
theorem paste_nil (xs : List α) (start : Nat) : paste xs start [] = xs := by
  rw [paste, List.append_nil, List.length_nil, Nat.add_zero, List.take_append_drop]

/-- Of two lists of one length pasted at one place the second one counts. -/
theorem paste_paste {xs values values' : List α} {start : Nat}
    (h : start + values.length ≤ xs.length) (hlength : values.length = values'.length) :
    paste (paste xs start values) start values' = paste xs start values' := by
  have h' : start + values'.length ≤ (paste xs start values).length := by
    rw [length_paste h]
    omega
  apply List.ext_getElem?
  intro i
  rw [getElem?_paste h', getElem?_paste h, getElem?_paste (by omega)]
  split
  · rfl
  · rw [if_neg (by omega)]

/-- Lists pasted apart from each other may be pasted in any order. -/
theorem paste_comm {xs values values' : List α} {start start' : Nat}
    (h : start + values.length ≤ start') (h' : start' + values'.length ≤ xs.length) :
    paste (paste xs start values) start' values' = paste (paste xs start' values') start values := by
  have hfirst : start + values.length ≤ xs.length := by omega
  have hsecond : start' + values'.length ≤ (paste xs start values).length := by
    rw [length_paste hfirst]
    exact h'
  have hfirst' : start + values.length ≤ (paste xs start' values').length := by
    rw [length_paste h']
    exact hfirst
  apply List.ext_getElem?
  intro i
  rw [getElem?_paste hsecond, getElem?_paste hfirst, getElem?_paste hfirst', getElem?_paste h']
  by_cases hi : start ≤ i ∧ i < start + values.length
  · rw [if_neg (by omega), if_pos hi, if_pos hi]
  · rw [if_neg hi, if_neg hi]

/-- Pasting a window where it is changes nothing. -/
theorem paste_window {xs : List α} {start count : Nat} (h : start + count ≤ xs.length) :
    paste xs start (window xs start count) = xs := by
  have hlength := length_window h
  apply List.ext_getElem?
  intro i
  rw [getElem?_paste (by omega), getElem?_window]
  split
  · rw [if_pos (by omega)]
    congr 1
    omega
  · rfl

/-- Pasting behind what was pasted pastes the two together. -/
theorem paste_append {xs values more : List α} {start : Nat}
    (h : start + (values.length + more.length) ≤ xs.length) :
    paste (paste xs start values) (start + values.length) more = paste xs start (values ++ more) := by
  have hfirst : start + values.length ≤ xs.length := by omega
  have hsecond : start + values.length + more.length ≤ (paste xs start values).length := by
    rw [length_paste hfirst]
    omega
  have hboth : start + (values ++ more).length ≤ xs.length := by
    rw [List.length_append]
    exact h
  apply List.ext_getElem?
  intro i
  rw [getElem?_paste hsecond, getElem?_paste hfirst, getElem?_paste hboth, List.length_append]
  by_cases hmore : start + values.length ≤ i ∧ i < start + values.length + more.length
  · rw [if_pos hmore, if_pos (by omega), List.getElem?_append_right (by omega)]
    congr 1
    omega
  rw [if_neg hmore]
  by_cases hvalues : start ≤ i ∧ i < start + values.length
  · rw [if_pos hvalues, if_pos (by omega), List.getElem?_append_left (by omega)]
  · rw [if_neg hvalues, if_neg (by omega)]

/-- A window of the left part of an append. -/
theorem window_append_left {xs ys : List α} {start count : Nat}
    (h : start + count ≤ xs.length) : window (xs ++ ys) start count = window xs start count := by
  apply window_congr
  intro i hi
  rw [List.getElem?_append_left (by omega)]

/-- A window of the right part of an append. -/
theorem window_append_right {xs ys : List α} {start count : Nat} (h : xs.length ≤ start) :
    window (xs ++ ys) start count = window ys (start - xs.length) count := by
  apply window_congr
  intro i hi
  rw [List.getElem?_append_right (by omega)]
  congr 1
  omega

/-- Behind a replaced front a list has its own windows. -/
theorem window_append_drop {front xs : List α} {n start count : Nat} (hfront : front.length = n)
    (h : n ≤ start) : window (front ++ xs.drop n) start count = window xs start count := by
  apply window_congr
  intro i hi
  rw [List.getElem?_append_right (by omega), List.getElem?_drop]
  congr 1
  omega

/-- A window of equal elements. -/
theorem window_replicate {x : α} {n start count : Nat} (h : start + count ≤ n) :
    window (List.replicate n x) start count = List.replicate count x := by
  rw [window, List.drop_replicate, List.take_replicate]
  congr 1
  omega

/-- In a list of chunks of one length, each chunk is a window. -/
theorem window_flatten {chunks : List (List α)} {size k : Nat} {chunk : List α}
    (hsize : ∀ c ∈ chunks, c.length = size) (hk : chunks[k]? = some chunk) :
    window chunks.flatten (k * size) size = chunk := by
  induction chunks generalizing k with
  | nil => simp at hk
  | cons c chunks ih =>
      have hc : c.length = size := hsize c List.mem_cons_self
      have hrest : ∀ c ∈ chunks, c.length = size := fun c' h => hsize c' (List.mem_cons_of_mem c h)
      cases k with
      | zero =>
          obtain rfl : c = chunk := by simpa using hk
          rw [window, List.flatten_cons, Nat.zero_mul, List.drop_zero, ← hc, List.take_left]
      | succ k =>
          rw [← ih hrest (by simpa using hk)]
          have hskip : (k + 1) * size = c.length + k * size := by
            rw [hc]
            ring
          rw [window, window, List.flatten_cons, hskip, ← List.drop_drop, List.drop_left]

/-! ## Known windows -/

/-- From the position `start` on the list has `values`. -/
def Shows (xs : List α) (start : Nat) (values : List α) : Prop :=
  window xs start values.length = values

variable {xs values : List α} {start : Nat}

/-- What was pasted is shown. -/
theorem shows_paste (h : start + values.length ≤ xs.length) :
    Shows (paste xs start values) start values :=
  window_paste h

/-- No values are shown anywhere. -/
theorem shows_nil (xs : List α) (start : Nat) : Shows xs start [] :=
  List.take_zero

/-- A list shows all of its elements. -/
theorem shows_self (xs : List α) : Shows xs 0 xs :=
  List.take_length

/-- The rest of a list is shown where it begins. -/
theorem shows_drop (xs : List α) (start : Nat) : Shows xs start (xs.drop start) :=
  List.take_length

namespace Shows

/-- What is apart from a pasted window is still shown. -/
theorem paste {other : Nat} {more : List α} (hs : Shows xs start values)
    (h : other + more.length ≤ xs.length)
    (apart : start + values.length ≤ other ∨ other + more.length ≤ start) :
    Shows (RecordPool.paste xs other more) start values :=
  (window_paste_of_apart h apart).trans hs

/-- Adjoining windows are shown as one. -/
theorem append {more : List α} {next : Nat} (hs : Shows xs start values)
    (hmore : Shows xs next more) (h : start + values.length = next) :
    Shows xs start (values ++ more) := by
  subst h
  rw [Shows, window] at hs hmore
  rw [Shows, window, List.length_append, List.take_add, hs, List.drop_drop, hmore]

/-- The first part of what is shown. -/
theorem of_append_left {more : List α} (hs : Shows xs start (values ++ more)) :
    Shows xs start values := by
  rw [Shows, window, List.length_append, List.take_add] at hs
  rw [Shows, window]
  refine List.append_inj_left hs ?_
  have hlength := congrArg List.length hs
  simp only [List.length_append, List.length_take, List.length_drop] at hlength ⊢
  omega

/-- The second part of what is shown. -/
theorem of_append_right {more : List α} {next : Nat} (hs : Shows xs start (values ++ more))
    (h : start + values.length = next) : Shows xs next more := by
  have hleft := hs.of_append_left
  subst h
  rw [Shows, window] at hleft
  rw [Shows, window, List.length_append, List.take_add, hleft, List.drop_drop] at hs
  exact List.append_cancel_left hs

/-- Pasting behind what is shown extends it. -/
theorem paste_append {more : List α} {next : Nat} (hs : Shows xs start values)
    (hfit : next + more.length ≤ xs.length) (h : start + values.length = next) :
    Shows (RecordPool.paste xs next more) start (values ++ more) :=
  (hs.paste hfit (Or.inl (le_of_eq h))).append (shows_paste hfit) h

/-- A window inside a shown one is a window of the values. -/
theorem window_eq {inner count : Nat} (hs : Shows xs start values)
    (inside : inner + count ≤ values.length) :
    window xs (start + inner) count = window values inner count := by
  rw [Shows] at hs
  apply window_congr
  intro i hi
  rw [← hs, getElem?_window, if_pos (by omega), Nat.add_assoc]

/-- A list that shows as many values as it has elements has no others. -/
theorem eq_of_length (hs : Shows xs 0 values) (h : values.length = xs.length) : xs = values := by
  rw [Shows, window, List.drop_zero, h, List.take_length] at hs
  exact hs

end Shows

end RecordPool

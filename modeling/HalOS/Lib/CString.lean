import Mathlib.Logic.Function.Basic
import Mathlib.Data.List.Basic

/-!
# Strings in Memory

The string functions of C on memory as a function from offsets to bytes: `strncpy`, `strncat`,
`strlen` and the two conversions of case, each as the loop that it is, and `memcpy`. What a loop
stores is also a list of its own, of the offsets with their bytes.

## Main results

* `strncpy_apply`: what `strncpy` leaves at an offset.
* `stringAt_eq_map`: the string that ends at the first zero.
* `storeAll_strncpyStores`, `map_fst_strncpyStores`: what `strncpy` stores, and where.
-/

namespace CString

/-- The bytes from a pointer on. -/
abbrev Memory := ℕ → UInt8

variable (src dest : Memory) (start : ℕ)

/-- The second loop of `strncpy`, with `n` bytes left from offset `i` on. -/
def padZeros : ℕ → ℕ → Memory → Memory
  | 0, _, dest => dest
  | n + 1, i, dest => padZeros n (i + 1) (Function.update dest (start + i) 0)

/-- The first loop of `strncpy`. -/
def copyChars : ℕ → ℕ → Memory → Memory
  | 0, _, dest => dest
  | n + 1, i, dest =>
      if src i = 0 then padZeros start (n + 1) i dest
      else copyChars n (i + 1) (Function.update dest (start + i) (src i))

/-- `strncpy(dest + start, src, n)`. -/
def strncpy (n : ℕ) : Memory := copyChars src start n 0 dest

/-- The string at offset `i`, if it ends within the next `n` bytes. -/
def stringAt (m : Memory) : ℕ → ℕ → List UInt8
  | 0, _ => []
  | n + 1, i => if m i = 0 then [] else m i :: stringAt m n (i + 1)

/-- The loop of `strncat`, which writes from `start` on. -/
def appendChars : ℕ → ℕ → Memory → Memory
  | 0, i, dest => Function.update dest (start + i) 0
  | n + 1, i, dest =>
      if src i = 0 then Function.update dest (start + i) 0
      else appendChars n (i + 1) (Function.update dest (start + i) (src i))

/-- `strncat(dest, src, n)` on a string of fewer than `limit` bytes. -/
def strncat (limit n : ℕ) : Memory := appendChars src (stringAt dest limit 0).length n 0 dest

/-! ### Copies -/

/-- Byte `j` of what is copied from a string: zero from its terminator on. -/
def stringByte : Memory → ℕ → UInt8
  | src, 0 => src 0
  | src, j + 1 => if src 0 = 0 then 0 else stringByte (fun k => src (k + 1)) j

theorem stringByte_eq_zero {src : Memory} {j : ℕ} (h : src j = 0) : stringByte src j = 0 := by
  induction j generalizing src with
  | zero => exact h
  | succ j ih =>
      rw [stringByte]
      by_cases h0 : src 0 = 0
      · rw [if_pos h0]
      · rw [if_neg h0]
        exact ih h

theorem stringByte_of_ne_zero {src : Memory} {j : ℕ} (h : ∀ k ≤ j, src k ≠ 0) :
    stringByte src j = src j := by
  induction j generalizing src with
  | zero => rfl
  | succ j ih =>
      rw [stringByte, if_neg (h 0 (Nat.zero_le _))]
      exact ih fun k hk => h (k + 1) (Nat.succ_le_succ hk)

theorem padZeros_apply (n i : ℕ) (dest : Memory) (p : ℕ) :
    padZeros start n i dest p = if start + i ≤ p ∧ p < start + i + n then 0 else dest p := by
  induction n generalizing i dest with
  | zero => rw [padZeros, if_neg (by omega)]
  | succ n ih =>
      rw [padZeros, ih, Function.update_apply]
      by_cases hp : p = start + i
      · rw [if_neg (by omega), if_pos hp, if_pos (by omega)]
      · rw [if_neg hp]
        exact if_congr (by omega) rfl rfl

theorem copyChars_apply (n i : ℕ) (dest : Memory) (p : ℕ) :
    copyChars src start n i dest p =
      if start + i ≤ p ∧ p < start + i + n then
        stringByte (fun k => src (i + k)) (p - (start + i))
      else dest p := by
  induction n generalizing i dest with
  | zero => rw [copyChars, if_neg (by omega)]
  | succ n ih =>
      rw [copyChars]
      by_cases h0 : src i = 0
      · rw [if_pos h0, padZeros_apply]
        by_cases hp : start + i ≤ p ∧ p < start + i + (n + 1)
        · rw [if_pos hp, if_pos hp]
          cases p - (start + i) with
          | zero => exact h0.symm
          | succ j => exact (if_pos h0).symm
        · rw [if_neg hp, if_neg hp]
      rw [if_neg h0, ih, Function.update_apply]
      by_cases hp : p = start + i
      · rw [if_neg (by omega), if_pos hp, if_pos (by omega), hp, Nat.sub_self]
        rfl
      rw [if_neg hp]
      by_cases hin : start + i ≤ p ∧ p < start + i + (n + 1)
      · have hsucc : p - (start + i) = p - (start + (i + 1)) + 1 := by omega
        have hi : src (i + 0) ≠ 0 := h0
        rw [if_pos (by omega), if_pos hin, hsucc, stringByte, if_neg hi]
        congr 1
        funext k
        exact congrArg src (by omega)
      · rw [if_neg (by omega), if_neg hin]

/-- What `strncpy` leaves at an offset. -/
theorem strncpy_apply (n p : ℕ) :
    strncpy src dest start n p =
      if start ≤ p ∧ p < start + n then stringByte src (p - start) else dest p := by
  rw [strncpy, copyChars_apply]
  simp only [Nat.add_zero, Nat.zero_add]

/-! ### Strings -/

/-- The string that ends at the first zero. -/
theorem stringAt_eq_map {m : Memory} {n i l : ℕ} (hl : l < n) (hne : ∀ j < l, m (i + j) ≠ 0)
    (h0 : m (i + l) = 0) : stringAt m n i = (List.range l).map fun j => m (i + j) := by
  induction l generalizing n i with
  | zero =>
      obtain ⟨n, rfl⟩ : ∃ k, n = k + 1 := ⟨n - 1, by omega⟩
      rw [Nat.add_zero] at h0
      rw [stringAt, if_pos h0]
      rfl
  | succ l ih =>
      obtain ⟨n, rfl⟩ : ∃ k, n = k + 1 := ⟨n - 1, by omega⟩
      have hi : m i ≠ 0 := hne 0 (Nat.succ_pos l)
      rw [stringAt, if_neg hi, List.range_succ_eq_map, List.map_cons,
        List.map_map]
      have hshift : ∀ j, m (i + 1 + j) = m (i + (j + 1)) := fun j => congrArg m (by omega)
      rw [ih (Nat.lt_of_succ_lt_succ hl)
        (fun j hj => by rw [hshift]; exact hne (j + 1) (Nat.succ_lt_succ hj))
        (by rw [hshift]; exact h0)]
      exact congrArg _ (List.map_congr_left fun j _ => hshift j)

/-- A string ends at the latest where there is a zero. -/
theorem length_stringAt_le {m : Memory} {i l : ℕ} (n : ℕ) (h0 : m (i + l) = 0) :
    (stringAt m n i).length ≤ l := by
  induction n generalizing i l with
  | zero => exact Nat.zero_le l
  | succ n ih =>
      rw [stringAt]
      by_cases hi : m i = 0
      · rw [if_pos hi]
        exact Nat.zero_le l
      rw [if_neg hi, List.length_cons]
      cases l with
      | zero => exact absurd h0 hi
      | succ l =>
          have h1 : m (i + 1 + l) = 0 := by
            rw [← h0]
            exact congrArg m (by omega)
          exact Nat.succ_le_succ (ih h1)

/-- Only the bytes up to the terminator count. -/
theorem stringAt_congr {m m' : Memory} {i l : ℕ} (n : ℕ) (h : ∀ j ≤ l, m (i + j) = m' (i + j))
    (h0 : m (i + l) = 0) : stringAt m n i = stringAt m' n i := by
  induction n generalizing i l with
  | zero => rfl
  | succ n ih =>
      have hi : m i = m' i := h 0 (Nat.zero_le l)
      rw [stringAt, stringAt, ← hi]
      by_cases hzero : m i = 0
      · rw [if_pos hzero, if_pos hzero]
      rw [if_neg hzero, if_neg hzero]
      cases l with
      | zero => exact absurd h0 hzero
      | succ l =>
          have hshift : ∀ j, i + 1 + j = i + (j + 1) := fun j => by omega
          rw [ih (l := l) (fun j hj => by rw [hshift]; exact h (j + 1) (Nat.succ_le_succ hj))
            (by rw [hshift]; exact h0)]

theorem update_congr {m m' : Memory} {k : ℕ} (h : ∀ j < k, m j = m' j) (c : UInt8) :
    ∀ j ≤ k, Function.update m k c j = Function.update m' k c j := by
  intro j hj
  rw [Function.update_apply, Function.update_apply]
  by_cases heq : j = k
  · rw [if_pos heq, if_pos heq]
  · rw [if_neg heq, if_neg heq]
    exact h j (Nat.lt_of_le_of_ne hj heq)

/-- What is appended depends on the bytes before it only by the place. -/
theorem appendChars_congr {m m' : Memory} (n i : ℕ) (h : ∀ j < start + i, m j = m' j) :
    ∃ l, appendChars src start n i m l = 0 ∧
      ∀ j ≤ l, appendChars src start n i m j = appendChars src start n i m' j := by
  induction n generalizing i m m' with
  | zero => exact ⟨start + i, Function.update_self _ _ _, update_congr h 0⟩
  | succ n ih =>
      rw [appendChars, appendChars]
      split_ifs
      · exact ⟨start + i, Function.update_self _ _ _, update_congr h 0⟩
      · exact ih (i + 1) fun j hj => update_congr h (src i) j (Nat.lt_succ_iff.mp hj)

/-- The string `s` stands at offset `i`, with its terminator. -/
structure HoldsString (m : Memory) (i : ℕ) (s : List UInt8) : Prop where
  byte : ∀ j (h : j < s.length), m (i + j) = s[j]
  terminator : m (i + s.length) = 0
  ne_zero : ∀ c ∈ s, c ≠ 0

theorem HoldsString.stringAt_eq {m : Memory} {n i : ℕ} {s : List UInt8} (h : HoldsString m i s)
    (hn : s.length < n) : stringAt m n i = s := by
  rw [stringAt_eq_map hn (fun j hj => ?_) h.terminator]
  · refine List.ext_getElem (by rw [List.length_map, List.length_range]) fun j _ hj => ?_
    rw [List.getElem_map, List.getElem_range, h.byte j hj]
  · rw [h.byte j hj]
    exact h.ne_zero _ (List.getElem_mem hj)

/-- There is one string at an offset. -/
theorem HoldsString.unique {m : Memory} {i : ℕ} {s t : List UInt8} (hs : HoldsString m i s)
    (ht : HoldsString m i t) : s = t :=
  (hs.stringAt_eq (Nat.lt_succ_of_le (Nat.le_add_right s.length t.length))).symm.trans
    (ht.stringAt_eq (Nat.lt_succ_of_le (Nat.le_add_left t.length s.length)))

theorem HoldsString.congr {m m' : Memory} {i : ℕ} {s : List UInt8} (h : HoldsString m i s)
    (heq : ∀ j, i ≤ j → j ≤ i + s.length → m' j = m j) : HoldsString m' i s := by
  refine ⟨fun j hj => ?_, ?_, h.ne_zero⟩
  · rw [heq (i + j) (by omega) (by omega), h.byte j hj]
  · rw [heq (i + s.length) (by omega) (by omega), h.terminator]

/-- The end of a string is a string. -/
theorem HoldsString.right {m : Memory} {i : ℕ} {s t : List UInt8} (h : HoldsString m i (s ++ t)) :
    HoldsString m (i + s.length) t := by
  refine ⟨fun j hj => ?_, ?_, fun c hc => h.ne_zero c (List.mem_append_right s hc)⟩
  · have hbyte := h.byte (s.length + j) (by rw [List.length_append]; omega)
    rw [Nat.add_assoc, hbyte]
    simp
  · rw [Nat.add_assoc, ← List.length_append]
    exact h.terminator

/-- The beginning of a string is one with a terminator behind it. -/
theorem HoldsString.left {m : Memory} {i : ℕ} {s t : List UInt8} (h : HoldsString m i (s ++ t)) :
    HoldsString (Function.update m (i + s.length) 0) i s := by
  refine ⟨fun j hj => ?_, Function.update_self _ _ _,
    fun c hc => h.ne_zero c (List.mem_append_left t hc)⟩
  rw [Function.update_of_ne (by omega), h.byte j (by rw [List.length_append]; omega),
    List.getElem_append_left]

/-- A string and zeros. -/
def ofList (s : List UInt8) : Memory := fun i => s.getD i 0

theorem holdsString_ofList {s : List UInt8} (h : ∀ c ∈ s, c ≠ 0) : HoldsString (ofList s) 0 s := by
  refine ⟨fun j hj => ?_, ?_, h⟩
  · rw [Nat.zero_add, ofList, List.getD_eq_getElem?_getD, List.getElem?_eq_getElem hj,
      Option.getD_some]
  · rw [Nat.zero_add, ofList, List.getD_eq_getElem?_getD,
      List.getElem?_eq_none (Nat.le_refl _), Option.getD_none]

/-- **Copies** with `strncpy` that have room for the terminator. -/
theorem HoldsString.strncpy {src dest : Memory} {s : List UInt8} {n : ℕ}
    (h : HoldsString src 0 s) (hn : s.length < n) : HoldsString (strncpy src dest 0 n) 0 s := by
  have hbyte (j : ℕ) (hj : j < s.length) : src j ≠ 0 := by
    rw [← Nat.zero_add j, h.byte j hj]
    exact h.ne_zero _ (List.getElem_mem hj)
  refine ⟨fun j hj => ?_, ?_, h.ne_zero⟩
  · rw [strncpy_apply, if_pos (by omega), stringByte_of_ne_zero fun k hk => hbyte k (by omega),
      Nat.sub_zero, h.byte j hj]
  · rw [strncpy_apply, if_pos (by omega), Nat.sub_zero]
    exact stringByte_eq_zero h.terminator

/-- What `strncat` leaves at an offset, for `l` characters from number `i` on. -/
theorem appendChars_apply {n i l : ℕ} (hl : l ≤ n) (hne : ∀ j < l, src (i + j) ≠ 0)
    (hend : l = n ∨ src (i + l) = 0) (dest : Memory) (p : ℕ) :
    appendChars src start n i dest p =
      if start + i ≤ p ∧ p < start + i + l then src (p - start)
      else if p = start + i + l then 0 else dest p := by
  induction n generalizing i l dest with
  | zero =>
      obtain rfl : l = 0 := Nat.le_zero.mp hl
      rw [appendChars, Function.update_apply, if_neg (by omega : ¬ (start + i ≤ p ∧ _))]
      rfl
  | succ n ih =>
      rw [appendChars]
      cases l with
      | zero =>
          have hzero : src i = 0 := hend.resolve_left (Nat.succ_ne_zero n).symm
          rw [if_pos hzero, Function.update_apply, if_neg (by omega : ¬ (start + i ≤ p ∧ _))]
          rfl
      | succ l =>
          have hi : src i ≠ 0 := hne 0 (Nat.succ_pos l)
          have hshift : ∀ j, i + 1 + j = i + (j + 1) := fun j => by omega
          rw [if_neg hi, ih (l := l) (Nat.le_of_succ_le_succ hl)
            (fun j hj => by rw [hshift]; exact hne (j + 1) (Nat.succ_lt_succ hj))
            (by rw [hshift]; exact hend.imp_left Nat.succ.inj), Function.update_apply]
          by_cases hp : p = start + i
          · rw [if_neg (by omega), if_neg (by omega), if_pos hp, if_pos (by omega), hp,
              Nat.add_sub_cancel_left]
          · rw [if_neg hp]
            exact if_congr (by omega) rfl (if_congr (by omega) rfl rfl)

/-- **Concatenation.** -/
theorem HoldsString.strncat {src dest : Memory} {s t : List UInt8} {limit n : ℕ}
    (h : HoldsString dest 0 s) (hlimit : s.length < limit)
    (hsrc : ∀ j (hj : j < t.length), src j = t[j]) (ht : ∀ c ∈ t, c ≠ 0) (hn : t.length ≤ n)
    (hend : t.length = n ∨ src t.length = 0) :
    HoldsString (strncat src dest limit n) 0 (s ++ t) := by
  have happly := appendChars_apply src s.length (i := 0) hn
    (fun j hj => by rw [Nat.zero_add, hsrc j hj]; exact ht _ (List.getElem_mem hj))
    (by rwa [Nat.zero_add]) dest
  simp only [Nat.add_zero] at happly
  rw [CString.strncat, h.stringAt_eq hlimit]
  refine ⟨fun j hj => ?_, ?_, fun c hc => ?_⟩
  · rw [List.length_append] at hj
    rw [Nat.zero_add, happly, List.getElem_append]
    by_cases hlt : j < s.length
    · rw [if_neg (by omega), if_neg (by omega), dif_pos hlt, ← h.byte j hlt, Nat.zero_add]
    · rw [if_pos (by omega), dif_neg hlt]
      exact hsrc _ _
  · rw [Nat.zero_add, List.length_append, happly, if_neg (by omega), if_pos rfl]
  · exact (List.mem_append.mp hc).elim (h.ne_zero c) (ht c)

/-! ### Stores -/

/-- A byte, behind the offset that it is stored at. -/
abbrev Store := ℕ × UInt8

/-- The stores, one after the other. -/
def storeAll (stores : List Store) (m : Memory) : Memory :=
  stores.foldl (fun m s => Function.update m s.1 s.2) m

@[simp] theorem storeAll_nil (m : Memory) : storeAll [] m = m := rfl

@[simp] theorem storeAll_cons (s : Store) (stores : List Store) (m : Memory) :
    storeAll (s :: stores) m = storeAll stores (Function.update m s.1 s.2) := rfl

@[simp] theorem storeAll_append (stores stores' : List Store) (m : Memory) :
    storeAll (stores ++ stores') m = storeAll stores' (storeAll stores m) :=
  List.foldl_append

/-- What the second loop of `strncpy` stores. -/
def padZerosStores : ℕ → ℕ → List Store
  | 0, _ => []
  | n + 1, i => (start + i, 0) :: padZerosStores n (i + 1)

/-- What the loops of `strncpy` store. -/
def copyCharsStores : ℕ → ℕ → List Store
  | 0, _ => []
  | n + 1, i =>
      if src i = 0 then padZerosStores start (n + 1) i
      else (start + i, src i) :: copyCharsStores n (i + 1)

/-- What `strncpy(dest + start, src, n)` stores. -/
def strncpyStores (n : ℕ) : List Store := copyCharsStores src start n 0

/-- What the loop of `strncat` stores, with its terminator. -/
def appendCharsStores : ℕ → ℕ → List Store
  | 0, i => [(start + i, 0)]
  | n + 1, i =>
      if src i = 0 then [(start + i, 0)] else (start + i, src i) :: appendCharsStores n (i + 1)

/-- What `strcpy(dest, src)` stores from offset `i` on, for a string that ends within the next `n`
bytes. -/
def strcpyStores : ℕ → ℕ → List Store
  | 0, _ => []
  | n + 1, i => (i, src i) :: if src i = 0 then [] else strcpyStores n (i + 1)

theorem storeAll_padZerosStores (n i : ℕ) (dest : Memory) :
    storeAll (padZerosStores start n i) dest = padZeros start n i dest := by
  induction n generalizing i dest with
  | zero => rfl
  | succ n ih => exact ih _ _

theorem storeAll_copyCharsStores (n i : ℕ) (dest : Memory) :
    storeAll (copyCharsStores src start n i) dest = copyChars src start n i dest := by
  induction n generalizing i dest with
  | zero => rfl
  | succ n ih =>
      rw [copyCharsStores, copyChars]
      split_ifs
      · exact storeAll_padZerosStores _ _ _ _
      · exact ih _ _

theorem storeAll_strncpyStores (n : ℕ) :
    storeAll (strncpyStores src start n) dest = strncpy src dest start n :=
  storeAll_copyCharsStores _ _ _ _ _

theorem storeAll_appendCharsStores (n i : ℕ) (dest : Memory) :
    storeAll (appendCharsStores src start n i) dest = appendChars src start n i dest := by
  induction n generalizing i dest with
  | zero => rfl
  | succ n ih =>
      rw [appendCharsStores, appendChars]
      split_ifs
      · rfl
      · exact ih _ _

theorem map_fst_padZerosStores (n i : ℕ) :
    (padZerosStores start n i).map Prod.fst = (List.range n).map (start + i + ·) := by
  induction n generalizing i with
  | zero => rfl
  | succ n ih =>
      rw [padZerosStores, List.map_cons, ih, List.range_succ_eq_map, List.map_cons, List.map_map]
      refine congrArg _ (List.map_congr_left fun j _ => ?_)
      change start + (i + 1) + j = start + i + (j + 1)
      omega

/-- `strncpy` stores `n` bytes, whatever it copies. -/
theorem map_fst_copyCharsStores (n i : ℕ) :
    (copyCharsStores src start n i).map Prod.fst = (List.range n).map (start + i + ·) := by
  induction n generalizing i with
  | zero => rfl
  | succ n ih =>
      rw [copyCharsStores]
      split_ifs
      · exact map_fst_padZerosStores _ _ _
      · rw [List.map_cons, ih, List.range_succ_eq_map, List.map_cons, List.map_map]
        refine congrArg _ (List.map_congr_left fun j _ => ?_)
        change start + (i + 1) + j = start + i + (j + 1)
        omega

theorem map_fst_strncpyStores (n : ℕ) :
    (strncpyStores src start n).map Prod.fst = (List.range n).map (start + ·) :=
  map_fst_copyCharsStores _ _ _ _

theorem fst_lt_of_mem_strncpyStores {n : ℕ} {s : Store} (h : s ∈ strncpyStores src start n) :
    s.1 < start + n := by
  have hmem := List.mem_map_of_mem (f := Prod.fst) h
  rw [map_fst_strncpyStores] at hmem
  obtain ⟨j, hj, heq⟩ := List.mem_map.mp hmem
  rw [← heq]
  exact Nat.add_lt_add_left (List.mem_range.mp hj) start

theorem fst_le_of_mem_appendCharsStores {n i : ℕ} {s : Store}
    (h : s ∈ appendCharsStores src start n i) : s.1 ≤ start + i + n := by
  induction n generalizing i with
  | zero =>
      obtain rfl := List.mem_singleton.mp h
      exact Nat.le_refl _
  | succ n ih =>
      rw [appendCharsStores] at h
      split_ifs at h
      · obtain rfl := List.mem_singleton.mp h
        exact Nat.le_add_right _ _
      · obtain rfl | h := List.mem_cons.mp h
        · exact Nat.le_add_right _ _
        · have := ih h
          omega

theorem fst_lt_of_mem_strcpyStores {n i : ℕ} {s : Store} (h : s ∈ strcpyStores src n i) :
    s.1 < i + n := by
  induction n generalizing i with
  | zero => cases h
  | succ n ih =>
      rw [strcpyStores] at h
      obtain rfl | h := List.mem_cons.mp h
      · exact Nat.lt_add_of_pos_right (Nat.succ_pos n)
      · split_ifs at h
        · cases h
        · have := ih h
          omega

/-- `strcpy` copies up to the first terminator. -/
theorem storeAll_strcpyStores {n i k : ℕ} (hk : k < n) (h0 : src (i + k) = 0) (dest : Memory) :
    ∃ l, src (i + l) = 0 ∧ ∀ p, storeAll (strcpyStores src n i) dest p =
      if i ≤ p ∧ p ≤ i + l then src p else dest p := by
  induction n generalizing i k dest with
  | zero => omega
  | succ n ih =>
      rw [strcpyStores]
      by_cases hi : src i = 0
      · refine ⟨0, hi, fun p => ?_⟩
        rw [if_pos hi, storeAll_cons, storeAll_nil, Function.update_apply]
        by_cases hp : p = i
        · rw [if_pos hp, if_pos (by omega), hp]
        · rw [if_neg hp, if_neg (by omega)]
      cases k with
      | zero => exact absurd h0 hi
      | succ k =>
          have hshift : ∀ j, i + 1 + j = i + (j + 1) := fun j => by omega
          obtain ⟨l, hl, hcopy⟩ := ih (i := i + 1) (Nat.lt_of_succ_lt_succ hk)
            (by rw [hshift]; exact h0) (Function.update dest i (src i))
          refine ⟨l + 1, by rw [← hshift]; exact hl, fun p => ?_⟩
          rw [if_neg hi, storeAll_cons, hcopy, Function.update_apply]
          by_cases hp : p = i
          · rw [if_neg (by omega), if_pos hp, if_pos (by omega), hp]
          · rw [if_neg hp]
            exact if_congr (by omega) rfl rfl

/-- **Copies** of a string. -/
theorem stringAt_strcpyStores {src : Memory} {k : ℕ} (dest : Memory) (n : ℕ) (h0 : src k = 0) :
    stringAt (storeAll (strcpyStores src (k + 1) 0) dest) n 0 = stringAt src n 0 := by
  obtain ⟨l, hl, hcopy⟩ := storeAll_strcpyStores src (i := 0) (Nat.lt_succ_self k)
    (by rw [Nat.zero_add]; exact h0) dest
  rw [Nat.zero_add] at hl
  refine stringAt_congr (l := l) n (fun j hj => ?_) ?_
  · rw [Nat.zero_add, hcopy, if_pos (by omega)]
  · rw [Nat.zero_add, hcopy, if_pos (by omega), hl]

/-! ### Blocks -/

/-- `memcpy(dest + start, bytes, bytes.length)`. -/
def memcpy (bytes : List UInt8) : Memory := fun i =>
  if i < start then dest i else (bytes[i - start]?).getD (dest i)

theorem memcpy_of_lt {start i : ℕ} {bytes : List UInt8} (h : i < start) :
    memcpy dest start bytes i = dest i := if_pos h

theorem memcpy_add (k : ℕ) (bytes : List UInt8) :
    memcpy dest start bytes (start + k) = (bytes[k]?).getD (dest (start + k)) := by
  rw [memcpy, if_neg (Nat.not_lt.mpr (Nat.le_add_right start k)), Nat.add_sub_cancel_left]

/-- What is stored when the bytes are stored one behind the other. -/
def blockStores : ℕ → List UInt8 → List Store
  | _, [] => []
  | start, b :: bytes => (start, b) :: blockStores (start + 1) bytes

theorem storeAll_blockStores (bytes : List UInt8) :
    storeAll (blockStores start bytes) dest = memcpy dest start bytes := by
  induction bytes generalizing start dest with
  | nil =>
      funext i
      exact (ite_self _).symm
  | cons b bytes ih =>
      funext i
      rw [blockStores, storeAll_cons, ih, memcpy, memcpy, Function.update_apply]
      by_cases hlt : i < start
      · rw [if_pos (by omega), if_neg (by omega), if_pos hlt]
      by_cases heq : i = start
      · rw [if_pos (by omega), if_pos heq, if_neg hlt, heq, Nat.sub_self]
        rfl
      · have hsub : i - start = i - (start + 1) + 1 := by omega
        rw [if_neg (by omega), if_neg heq, if_neg hlt, hsub, List.getElem?_cons_succ]

theorem fst_lt_of_mem_blockStores {bytes : List UInt8} {s : Store}
    (h : s ∈ blockStores start bytes) : s.1 < start + bytes.length := by
  induction bytes generalizing start with
  | nil => cases h
  | cons b bytes ih =>
      rw [List.length_cons]
      rcases List.mem_cons.mp h with rfl | h
      · exact Nat.lt_add_of_pos_right (Nat.succ_pos _)
      · have := ih _ h
        omega

/-- A string is stored with its terminator. -/
theorem holdsString_blockStores {s : List UInt8} (h : ∀ c ∈ s, c ≠ 0) :
    HoldsString (storeAll (blockStores start s ++ [(start + s.length, 0)]) dest) start s := by
  rw [storeAll_append, storeAll_blockStores, storeAll_cons, storeAll_nil]
  refine ⟨fun j hj => ?_, Function.update_self _ _ _, h⟩
  rw [Function.update_of_ne (by omega), memcpy_add, List.getElem?_eq_getElem hj, Option.getD_some]

/-! ### Case -/

/-- `toupper`. -/
def toupper (c : UInt8) : UInt8 := if 0x61 ≤ c ∧ c ≤ 0x7A then c &&& 0xDF else c

/-- `tolower`. -/
def tolower (c : UInt8) : UInt8 := if 0x41 ≤ c ∧ c ≤ 0x5A then c ||| 0x20 else c

theorem toupper_cases (c : UInt8) :
    toupper (toupper c) = toupper c ∧ (toupper c = 0 ↔ c = 0) ∧ (toupper c = 0x2E ↔ c = 0x2E) ∧
      (toupper c = 0x2F ↔ c = 0x2F) := by
  have h : ∀ n < 256, toupper (toupper (UInt8.ofNat n)) = toupper (UInt8.ofNat n) ∧
      (toupper (UInt8.ofNat n) = 0 ↔ UInt8.ofNat n = 0) ∧
      (toupper (UInt8.ofNat n) = 0x2E ↔ UInt8.ofNat n = 0x2E) ∧
      (toupper (UInt8.ofNat n) = 0x2F ↔ UInt8.ofNat n = 0x2F) := by decide +kernel
  have hc := h c.toNat c.toNat_lt
  rwa [UInt8.ofNat_toNat] at hc

theorem tolower_cases (c : UInt8) :
    toupper (tolower c) = toupper c ∧ (tolower c = 0 ↔ c = 0) := by
  have h : ∀ n < 256, toupper (tolower (UInt8.ofNat n)) = toupper (UInt8.ofNat n) ∧
      (tolower (UInt8.ofNat n) = 0 ↔ UInt8.ofNat n = 0) := by decide +kernel
  have hc := h c.toNat c.toNat_lt
  rwa [UInt8.ofNat_toNat] at hc

end CString

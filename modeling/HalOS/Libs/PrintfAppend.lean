import HalOS.Libs.PrintfText

/-!
# Formats one after another

A conversion is read off the front of a format and takes its argument off the front of the
arguments. So a format with another one behind it has the text of the first one, and then the text
of the other one for the arguments that the first one leaves. A format that ends within a conversion
has none.

## Main results

* `formatText_append`: the text of two formats, one after the other.
* `printf_append`: such a format is printed like two calls.
-/

namespace HalOS

namespace Printf

open Outcome (bind_eq_ok map_eq_ok)

variable {fp : FloatText}

/-! ### Conversions -/

/-- A conversion with more of the format behind it, and more arguments. -/
def Spec.extend (s : Spec) (format : List UInt8) (args : List VaArg) : Spec :=
  { s with format := s.format ++ format, args := s.args ++ args }

@[simp] theorem Spec.extend_flags (s : Spec) (format : List UInt8) (args : List VaArg) :
    (s.extend format args).flags = s.flags := rfl

@[simp] theorem Spec.extend_args (s : Spec) (format : List UInt8) (args : List VaArg) :
    (s.extend format args).args = s.args ++ args := rfl

theorem formatFlags_append (format format' : List UInt8) (flags : Flags)
    (h : (formatFlags format flags).2 ≠ []) :
    formatFlags (format ++ format') flags =
      ((formatFlags format flags).1, (formatFlags format flags).2 ++ format') := by
  induction format generalizing flags with
  | nil => exact absurd rfl h
  | cons c format ih =>
      rw [formatFlags] at h
      rw [List.cons_append, formatFlags, formatFlags]
      split_ifs at h ⊢ <;> first | exact ih _ h | rfl

theorem atoi_append (format format' : List UInt8) (i : ℕ) (h : (atoi format i).2 ≠ []) :
    atoi (format ++ format') i = ((atoi format i).1, (atoi format i).2 ++ format') := by
  induction format generalizing i with
  | nil => exact absurd rfl h
  | cons c format ih =>
      rw [atoi] at h
      rw [List.cons_append, atoi, atoi]
      split_ifs at h ⊢ with hdigit
      · exact ih _ h
      · rfl

theorem nextWord_append {args : List VaArg} {r : UInt32 × List VaArg} (args' : List VaArg)
    (h : nextWord args = .ok r) : nextWord (args ++ args') = .ok (r.1, r.2 ++ args') := by
  cases args with
  | nil => cases h
  | cons a args =>
      cases a <;> cases h
      rfl

theorem nextDouble_append {args : List VaArg} {r : UInt64 × List VaArg} (args' : List VaArg)
    (h : nextDouble args = .ok r) : nextDouble (args ++ args') = .ok (r.1, r.2 ++ args') := by
  cases args with
  | nil => cases h
  | cons a args =>
      cases a <;> cases h
      rfl

theorem nextString_append {args : List VaArg} {r : List UInt8 × List VaArg} (args' : List VaArg)
    (h : nextString args = .ok r) : nextString (args ++ args') = .ok (r.1, r.2 ++ args') := by
  cases args with
  | nil => cases h
  | cons a args =>
      cases a <;> cases h
      rfl

theorem formatWidth_extend {s s' : Spec} (format : List UInt8) (args : List VaArg)
    (h : formatWidth s = .ok s') (hne : s'.format ≠ []) :
    formatWidth (s.extend format args) = .ok (s'.extend format args) := by
  rw [formatWidth] at h ⊢
  cases hf : s.format with
  | nil =>
      rw [hf] at h
      cases h
      exact absurd hf hne
  | cons c rest =>
      simp only [hf] at h
      simp only [Spec.extend, hf, List.cons_append]
      split_ifs at h ⊢ with hdigit hstar
      · cases h
        rw [← List.cons_append, atoi_append _ _ _ hne]
      · obtain ⟨r, hr, h⟩ := bind_eq_ok.mp h
        rw [nextWord_append _ hr]
        simp only [bind, Except.bind]
        split_ifs at h ⊢ <;> cases h <;> rfl
      · cases h
        rw [hf]
        rfl

theorem precisionValue_extend {s s' : Spec} (format : List UInt8) (args : List VaArg)
    (h : precisionValue s = .ok s') (hne : s'.format ≠ []) :
    precisionValue (s.extend format args) = .ok (s'.extend format args) := by
  rw [precisionValue] at h ⊢
  cases hf : s.format with
  | nil =>
      rw [hf] at h
      cases h
      exact absurd hf hne
  | cons c rest =>
      simp only [hf] at h
      simp only [Spec.extend, hf, List.cons_append]
      split_ifs at h ⊢ with hdigit hstar
      · cases h
        rw [← List.cons_append, atoi_append _ _ _ hne]
      · obtain ⟨r, hr, h⟩ := bind_eq_ok.mp h
        rw [nextWord_append _ hr]
        cases h
        rfl
      · cases h
        rw [hf]
        rfl

theorem formatPrecision_extend {s s' : Spec} (format : List UInt8) (args : List VaArg)
    (h : formatPrecision s = .ok s') (hne : s'.format ≠ []) :
    formatPrecision (s.extend format args) = .ok (s'.extend format args) := by
  rw [formatPrecision] at h ⊢
  cases hf : s.format with
  | nil =>
      rw [hf] at h
      cases h
      exact absurd hf hne
  | cons c rest =>
      simp only [hf] at h
      simp only [Spec.extend, hf, List.cons_append]
      split_ifs at h ⊢
      · exact precisionValue_extend format args h hne
      · cases h
        rw [hf]
        rfl

theorem formatLength_extend (s : Spec) (format : List UInt8) (args : List VaArg)
    (hne : (formatLength s).format ≠ []) :
    formatLength (s.extend format args) = (formatLength s).extend format args := by
  rw [formatLength] at hne ⊢
  rw [formatLength]
  cases hf : s.format with
  | nil =>
      rw [hf] at hne
      exact absurd hf hne
  | cons c rest =>
      simp only [hf] at hne
      simp only [Spec.extend, hf, List.cons_append]
      cases rest with
      | nil => split_ifs at hne ⊢ <;> simp_all
      | cons c' rest =>
          simp only [List.cons_append, List.head?_cons, List.tail_cons, Option.some.injEq]
          split_ifs <;> first | rfl | rw [hf]; rfl

theorem formatLength_format (s : Spec) (h : (formatLength s).format ≠ []) : s.format ≠ [] := by
  intro hf
  rw [formatLength, hf] at h
  exact h hf

theorem formatPrecision_format {s s' : Spec} (hs : formatPrecision s = .ok s')
    (h : s'.format ≠ []) : s.format ≠ [] := by
  intro hf
  rw [formatPrecision, hf] at hs
  cases hs
  exact h hf

theorem formatWidth_format {s s' : Spec} (hs : formatWidth s = .ok s')
    (h : s'.format ≠ []) : s.format ≠ [] := by
  intro hf
  rw [formatWidth, hf] at hs
  cases hs
  exact h hf

/-- A conversion that is complete is read off in the same way if the format goes on behind it. -/
theorem formatSpec_extend {format : List UInt8} {args : List VaArg} {s : Spec}
    (format' : List UInt8) (args' : List VaArg) (h : formatSpec format args = .ok s)
    (hne : s.format ≠ []) :
    formatSpec (format ++ format') (args ++ args') = .ok (s.extend format' args') := by
  obtain ⟨s₁, s₂, h₁, h₂, rfl⟩ := formatSpec_ok h
  have hne₂ := formatLength_format s₂ hne
  have hne₁ := formatPrecision_format h₂ hne₂
  have hflags : (formatFlags format .none).2 ≠ [] := formatWidth_format h₁ hne₁
  have h₁' := formatWidth_extend format' args' h₁ hne₁
  have h₂' := formatPrecision_extend format' args' h₂ hne₂
  rw [formatSpec, formatFlags_append _ _ _ hflags]
  simp only [Spec.extend] at h₁' h₂'
  simp only [bind, Except.bind, h₁', h₂']
  exact congrArg Except.ok (formatLength_extend s₂ format' args' hne)

theorem convertIntegerText_extend {c : UInt8} {s : Spec} {r : List UInt8 × List VaArg}
    (format : List UInt8) (args : List VaArg) (h : convertIntegerText c s = .ok r) :
    convertIntegerText c (s.extend format args) = .ok (r.1, r.2 ++ args) := by
  rw [convertIntegerText, Spec.extend_flags, Spec.extend_args]
  rw [convertIntegerText] at h
  split_ifs at h ⊢
  · cases h
    rfl
  · obtain ⟨v, hv, h⟩ := bind_eq_ok.mp h
    cases h
    rw [nextWord_append args hv]
    rfl

/-- A conversion takes its argument off the front. -/
theorem convertText_extend {c : UInt8} {s : Spec} {r : List UInt8 × List VaArg}
    (format : List UInt8) (args : List VaArg) (h : convertText fp c s = .ok r) :
    convertText fp c (s.extend format args) = .ok (r.1, r.2 ++ args) := by
  rw [convertText] at h ⊢
  split_ifs at h ⊢
  · exact convertIntegerText_extend format args h
  · obtain ⟨v, hv, h⟩ := bind_eq_ok.mp h
    cases h
    rw [Spec.extend_args, nextDouble_append args hv]
    rfl
  · obtain ⟨v, hv, h⟩ := bind_eq_ok.mp h
    cases h
    rw [Spec.extend_args, nextDouble_append args hv]
    rfl
  · obtain ⟨v, hv, h⟩ := bind_eq_ok.mp h
    cases h
    rw [Spec.extend_args, nextWord_append args hv]
    rfl
  · obtain ⟨p, hp, h⟩ := bind_eq_ok.mp h
    cases h
    rw [Spec.extend_args, nextString_append args hp]
    rfl
  · obtain ⟨v, hv, h⟩ := bind_eq_ok.mp h
    cases h
    rw [Spec.extend_args, nextWord_append args hv]
    rfl
  · cases h
    rfl

/-! ### The fuel of the loop -/

theorem length_formatFlags_le (format : List UInt8) (flags : Flags) :
    (formatFlags format flags).2.length ≤ format.length := by
  induction format generalizing flags with
  | nil => exact Nat.le_refl _
  | cons c format ih =>
      rw [formatFlags]
      split_ifs <;> first | exact (ih _).trans (Nat.le_succ _) | exact Nat.le_refl _

theorem length_atoi_le (format : List UInt8) (i : ℕ) : (atoi format i).2.length ≤ format.length := by
  induction format generalizing i with
  | nil => exact Nat.le_refl _
  | cons c format ih =>
      rw [atoi]
      split_ifs
      · exact (ih _).trans (Nat.le_succ _)
      · exact Nat.le_refl _

theorem length_formatWidth_le {s s' : Spec} (h : formatWidth s = .ok s') :
    s'.format.length ≤ s.format.length := by
  rw [formatWidth] at h
  cases hf : s.format with
  | nil =>
      rw [hf] at h
      cases h
      rw [hf]
  | cons c format =>
      simp only [hf] at h
      split_ifs at h
      · cases h
        exact length_atoi_le _ _
      · obtain ⟨r, -, h⟩ := bind_eq_ok.mp h
        split_ifs at h <;> cases h <;> exact Nat.le_succ _
      · cases h
        rw [hf]

theorem length_precisionValue_le {s s' : Spec} (h : precisionValue s = .ok s') :
    s'.format.length ≤ s.format.length := by
  rw [precisionValue] at h
  cases hf : s.format with
  | nil =>
      rw [hf] at h
      cases h
      rw [hf]
  | cons c format =>
      simp only [hf] at h
      split_ifs at h
      · cases h
        exact length_atoi_le _ _
      · obtain ⟨r, -, h⟩ := bind_eq_ok.mp h
        cases h
        exact Nat.le_succ _
      · cases h
        rw [hf]

theorem length_formatPrecision_le {s s' : Spec} (h : formatPrecision s = .ok s') :
    s'.format.length ≤ s.format.length := by
  rw [formatPrecision] at h
  cases hf : s.format with
  | nil =>
      rw [hf] at h
      cases h
      rw [hf]
  | cons c format =>
      simp only [hf] at h
      split_ifs at h
      · exact (length_precisionValue_le h).trans (Nat.le_succ _)
      · cases h
        rw [hf]

theorem length_formatLength_le (s : Spec) : (formatLength s).format.length ≤ s.format.length := by
  rw [formatLength]
  cases hf : s.format with
  | nil => rw [hf]
  | cons c format =>
      simp only
      split_ifs <;> simp [hf] <;> omega

/-- A conversion leaves no more of the format than there is. -/
theorem length_formatSpec_le {format : List UInt8} {args : List VaArg} {s : Spec}
    (h : formatSpec format args = .ok s) : s.format.length ≤ format.length := by
  obtain ⟨s₁, s₂, h₁, h₂, rfl⟩ := formatSpec_ok h
  calc (formatLength s₂).format.length ≤ s₂.format.length := length_formatLength_le s₂
    _ ≤ s₁.format.length := length_formatPrecision_le h₂
    _ ≤ (formatFlags format .none).2.length := length_formatWidth_le h₁
    _ ≤ format.length := length_formatFlags_le _ _

/-- More fuel than there is format changes nothing. -/
theorem formatTextLoop_fuel {fuel fuel' : ℕ} {format : List UInt8} (args : List VaArg)
    (h : format.length ≤ fuel) (h' : format.length ≤ fuel') :
    formatTextLoop fp fuel format args = formatTextLoop fp fuel' format args := by
  induction fuel generalizing format fuel' args with
  | zero =>
      obtain rfl := List.length_eq_zero_iff.mp (Nat.le_zero.mp h)
      cases fuel' <;> rfl
  | succ fuel ih =>
      cases format with
      | nil => cases fuel' <;> rfl
      | cons c format =>
          rw [List.length_cons] at h h'
          obtain ⟨fuel', rfl⟩ : ∃ n, fuel' = n + 1 := ⟨fuel' - 1, by omega⟩
          rw [formatTextLoop, formatTextLoop]
          split_ifs
          · rw [ih args (Nat.le_of_succ_le_succ h) (Nat.le_of_succ_le_succ h')]
          · cases hs : formatSpec format args with
            | error e => rfl
            | ok s =>
                have hle := length_formatSpec_le hs
                cases hf : s.format with
                | nil => simp [bind, Except.bind, hf]
                | cons c format =>
                    rw [hf, List.length_cons] at hle
                    simp only [bind, Except.bind, hf]
                    cases convertText fp c s with
                    | error e => rfl
                    | ok r => simp only [ih r.2 (show format.length ≤ fuel by omega)
                        (show format.length ≤ fuel' by omega)]

theorem formatTextLoop_append {fuel fuel' : ℕ} {format format' : List UInt8} {args : List VaArg}
    (args' : List VaArg) {r : List UInt8 × List VaArg} (hfuel : format.length ≤ fuel)
    (h : formatTextLoop fp fuel format args = .ok r) (hfuel' : format'.length ≤ fuel') :
    formatTextLoop fp (fuel + fuel') (format ++ format') (args ++ args') =
      (formatTextLoop fp fuel' format' (r.2 ++ args')).map fun r' => (r.1 ++ r'.1, r'.2) := by
  induction fuel generalizing format args r with
  | zero =>
      obtain rfl := List.length_eq_zero_iff.mp (Nat.le_zero.mp hfuel)
      cases h
      rw [Nat.zero_add, List.nil_append]
      cases formatTextLoop fp fuel' format' (args ++ args') <;> rfl
  | succ fuel ih =>
      cases format with
      | nil =>
          cases h
          rw [List.nil_append, formatTextLoop_fuel _ (by omega) hfuel']
          cases formatTextLoop fp fuel' format' (args ++ args') <;> rfl
      | cons c format =>
          have hlen : format.length ≤ fuel := Nat.le_of_succ_le_succ hfuel
          rw [Nat.add_right_comm, List.cons_append, formatTextLoop]
          rw [formatTextLoop] at h
          split_ifs at h ⊢
          · obtain ⟨t, ht, rfl⟩ := map_eq_ok.mp h
            rw [ih hlen ht]
            cases formatTextLoop fp fuel' format' (t.2 ++ args') <;> rfl
          · obtain ⟨s, hs, h⟩ := bind_eq_ok.mp h
            have hle := length_formatSpec_le hs
            cases hf : s.format with
            | nil =>
                rw [hf] at h
                cases h
            | cons c rest =>
                simp only [hf] at h
                rw [hf, List.length_cons] at hle
                obtain ⟨t, ht, h⟩ := bind_eq_ok.mp h
                obtain ⟨u, hu, rfl⟩ := map_eq_ok.mp h
                have hformat : (s.extend format' args').format = c :: (rest ++ format') := by
                  rw [Spec.extend, hf, List.cons_append]
                rw [formatSpec_extend format' args' hs (by rw [hf]; exact List.cons_ne_nil _ _)]
                simp only [bind, Except.bind, hformat, convertText_extend format' args' ht,
                  ih (show rest.length ≤ fuel by omega) hu]
                cases formatTextLoop fp fuel' format' (u.2 ++ args') with
                | error e => rfl
                | ok r' => simp only [Except.map, List.append_assoc]

/-- A format that is followed by another one: its text comes first, and the other one is given the
arguments that it leaves. -/
theorem formatText_append (fp : FloatText) {format : List UInt8} {args : List VaArg}
    {r : List UInt8 × List VaArg} (h : formatText fp format args = .ok r) (format' : List UInt8)
    (args' : List VaArg) :
    formatText fp (format ++ format') (args ++ args') =
      (formatText fp format' (r.2 ++ args')).map fun r' => (r.1 ++ r'.1, r'.2) := by
  rw [formatText, List.length_append]
  exact formatTextLoop_append args' (Nat.le_refl _) h (Nat.le_refl _)

/-- A format that takes all of its arguments, with another one behind it, is printed like two calls
of `printf_`, one after the other; so is the length that is returned. -/
theorem printf_append (fp : FloatText) {τ : Type} (putchar : UInt8 → τ → τ)
    {format format' text : List UInt8} {args args' : List VaArg} (s : τ)
    (h : formatText fp format args = .ok (text, []))
    (hlen : ∀ r, formatText fp format' args' = .ok r → text.length + r.1.length < 2 ^ 32)
    (htext : text.length < 2 ^ 32) :
    printf fp putchar (format ++ format') (args ++ args') s =
      printf fp putchar format args s >>= fun r =>
        (printf fp putchar format' args' r.2).map fun r' => (r.1 + r'.1, r'.2) := by
  have happend := formatText_append fp h format' args'
  rw [List.nil_append] at happend
  rw [printf_eq fp putchar (format ++ format') _ s fun r hr => by
      rw [happend] at hr
      obtain ⟨r', hr', rfl⟩ := map_eq_ok.mp hr
      rw [List.length_append]
      exact hlen r' hr',
    printf_eq fp putchar format args s fun r hr => by
      cases h.symm.trans hr
      exact htext, happend, h]
  simp only [Except.map, bind, Except.bind]
  rw [printf_eq fp putchar format' args' _ fun r hr => by
    have := hlen r hr
    omega]
  cases formatText fp format' args' with
  | error e => rfl
  | ok r => simp [Except.map, List.filter_append, List.foldl_append]

/-- `printf_("%d, %d", 42, 7)`. -/
theorem printf_append_numbers :
    printf noFloats (fun c (s : List UInt8) => s ++ [c]) ([0x25, 0x64] ++ [0x2C, 0x20, 0x25, 0x64])
      ([.word 42] ++ [.word 7]) [] = .ok (5, [0x34, 0x32, 0x2C, 0x20, 0x37]) := by
  have htext : formatText noFloats [0x25, 0x64] [.word 42] = .ok ([0x34, 0x32], []) := rfl
  have htext' : formatText noFloats [0x2C, 0x20, 0x25, 0x64] [.word 7] =
      .ok ([0x2C, 0x20, 0x37], []) := rfl
  exact printf_append noFloats (fun c s => s ++ [c]) [] htext
    (fun r hr => by
      cases htext'.symm.trans hr
      norm_num)
    (by norm_num)

end Printf

end HalOS

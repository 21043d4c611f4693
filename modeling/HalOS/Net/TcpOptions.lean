import HalOS.Net.Network

/-!
# TCP Options

The grammar of the option area: padding of one byte, and options that state their length. The area
is read up to the first place where no option begins: its end, the end-of-list byte, a length below
two, or an option that would go on behind the area.

## Main results

* `Longest.isPrefix`: the options that are read are the longest list that the area begins with.
* `processTcpOptions_reads`: `process_tcp_options` reads them, and nothing outside the area.
-/

namespace HalOS

open Access (OnlyTouches)

/-! ### The grammar -/

/-- An option: a byte of padding, or a kind and data. -/
inductive TcpOption
  | nop
  | sized (kind : UInt8) (data : List UInt8) (one_lt : 1 < kind) (length_lt : data.length < 254)

namespace TcpOption

/-- The bytes of an option. The length counts itself and the kind. -/
def encode : TcpOption → List UInt8
  | nop => [1]
  | sized kind data _ _ => kind :: UInt8.ofNat (data.length + 2) :: data

/-- The value of an MSS option, of kind 2 and length 4. -/
def mss? : TcpOption → Option UInt16
  | nop => none
  | sized kind data _ _ =>
      match data with
      | [high, low] => if kind = 2 then some (high.toUInt16 <<< 8 ||| low.toUInt16) else none
      | _ => none

end TcpOption

/-- The MSS behind these options: that of the last MSS option, but at most `DEFAULT_MSS`. -/
def mssAfter (options : List TcpOption) (mss : UInt16) : UInt16 :=
  (options.filterMap TcpOption.mss?).getLast?.elim mss fun value => min value defaultMss

/-- No option begins here. -/
inductive OptionsEnd : List UInt8 → Prop
  | nil : OptionsEnd []
  | endOfList (rest : List UInt8) : OptionsEnd (0 :: rest)
  | noLength {kind : UInt8} (one_lt : 1 < kind) : OptionsEnd [kind]
  | short {kind length : UInt8} (one_lt : 1 < kind) (hlength : length.toNat < 2)
      (rest : List UInt8) : OptionsEnd (kind :: length :: rest)
  | beyond {kind length : UInt8} {rest : List UInt8} (one_lt : 1 < kind)
      (hlength : rest.length + 2 < length.toNat) : OptionsEnd (kind :: length :: rest)

/-- The area begins with these options, and behind them no option begins. -/
structure Longest (area : List UInt8) (options : List TcpOption) (tail : List UInt8) : Prop where
  area : area = options.flatMap TcpOption.encode ++ tail
  stops : OptionsEnd tail

variable {area tail rest : List UInt8} {options : List TcpOption} {o : TcpOption}

/-! ### Reading is unambiguous -/

theorem toNat_optionLength {n : ℕ} (h : n < 254) : (UInt8.ofNat (n + 2)).toNat = n + 2 := by
  rw [UInt8.toNat_ofNat']
  omega

theorem TcpOption.encode_sized_append (kind : UInt8) (data : List UInt8) (one_lt : 1 < kind)
    (length_lt : data.length < 254) (rest : List UInt8) :
    (sized kind data one_lt length_lt).encode ++ rest =
      kind :: UInt8.ofNat (data.length + 2) :: (data ++ rest) := rfl

theorem TcpOption.length_encode_pos (o : TcpOption) : 0 < o.encode.length := by
  cases o <;> exact Nat.succ_pos _

/-- The bytes of an option tell what it is and where it ends. -/
theorem TcpOption.encode_append_inj {o' : TcpOption} {rest' : List UInt8}
    (h : o.encode ++ rest = o'.encode ++ rest') : o = o' ∧ rest = rest' := by
  cases o with
  | nop =>
      cases o' with
      | nop => exact ⟨rfl, (List.cons.inj h).2⟩
      | sized kind data one_lt length_lt =>
          rw [← (List.cons.inj h).1] at one_lt
          exact absurd one_lt (by decide)
  | sized kind data one_lt length_lt =>
      cases o' with
      | nop =>
          rw [(List.cons.inj h).1] at one_lt
          exact absurd one_lt (by decide)
      | sized kind' data' one_lt' length_lt' =>
          rw [encode_sized_append, encode_sized_append, List.cons.injEq, List.cons.injEq] at h
          obtain ⟨rfl, hlength, h⟩ := h
          have hlen := congrArg UInt8.toNat hlength
          rw [toNat_optionLength length_lt, toNat_optionLength length_lt'] at hlen
          obtain ⟨rfl, rfl⟩ := List.append_inj h (by omega)
          exact ⟨rfl, rfl⟩

/-- Where an option begins, the options have not ended. -/
theorem TcpOption.not_optionsEnd (o : TcpOption) (rest : List UInt8) :
    ¬ OptionsEnd (o.encode ++ rest) := by
  intro h
  cases o with
  | nop =>
      generalize harea : TcpOption.nop.encode ++ rest = area at h
      cases h with
      | nil => cases harea
      | endOfList => cases harea
      | noLength one_lt | short one_lt | beyond one_lt =>
          rw [← (List.cons.inj harea).1] at one_lt
          exact absurd one_lt (by decide)
  | sized kind data one_lt length_lt =>
      rw [encode_sized_append] at h
      generalize harea : kind :: UInt8.ofNat (data.length + 2) :: (data ++ rest) = area at h
      have hlen := toNat_optionLength length_lt
      cases h with
      | nil => cases harea
      | endOfList =>
          rw [(List.cons.inj harea).1] at one_lt
          exact absurd one_lt (by decide)
      | noLength => cases (List.cons.inj harea).2
      | short _ hlength =>
          rw [← (List.cons.inj (List.cons.inj harea).2).1, hlen] at hlength
          omega
      | beyond _ hlength =>
          obtain ⟨hfirst, hrest⟩ := List.cons.inj (List.cons.inj harea).2
          rw [← hfirst, hlen, ← hrest, List.length_append] at hlength
          omega

/-- **The longest list of options**: any other one that the area begins with is a part of it. -/
theorem Longest.isPrefix {others : List TcpOption} (h : Longest area options tail)
    (hothers : others.flatMap TcpOption.encode <+: area) : others <+: options := by
  induction others generalizing area options with
  | nil => exact List.nil_prefix
  | cons o' others ih =>
      obtain ⟨rest, hrest⟩ := hothers
      rw [List.flatMap_cons, List.append_assoc] at hrest
      cases options with
      | nil =>
          have harea := h.area
          rw [List.flatMap_nil, List.nil_append] at harea
          exact absurd (hrest ▸ harea ▸ h.stops) (o'.not_optionsEnd _)
      | cons o options =>
          have harea := h.area
          rw [List.flatMap_cons, List.append_assoc, ← hrest] at harea
          obtain ⟨rfl, htail⟩ := TcpOption.encode_append_inj harea
          exact List.cons_prefix_cons.mpr ⟨rfl, ih ⟨htail, h.stops⟩ (List.prefix_append _ _)⟩

/-- At every place an option begins, or none does. -/
theorem exists_option (area : List UInt8) :
    OptionsEnd area ∨ ∃ o : TcpOption, ∃ rest, area = o.encode ++ rest := by
  match area with
  | [] => exact Or.inl .nil
  | kind :: rest =>
      by_cases hzero : kind = 0
      · exact Or.inl (hzero ▸ .endOfList rest)
      by_cases hone : kind = 1
      · exact Or.inr ⟨.nop, rest, by rw [hone]; rfl⟩
      have one_lt : 1 < kind := by
        rw [UInt8.lt_iff_toNat_lt]
        have h0 : kind.toNat ≠ 0 := fun h => hzero (UInt8.toNat_inj.mp h)
        have h1 : kind.toNat ≠ 1 := fun h => hone (UInt8.toNat_inj.mp h)
        have : (1 : UInt8).toNat = 1 := rfl
        omega
      match rest with
      | [] => exact Or.inl (.noLength one_lt)
      | length :: rest =>
          by_cases hshort : length.toNat < 2
          · exact Or.inl (.short one_lt hshort rest)
          by_cases hbeyond : rest.length + 2 < length.toNat
          · exact Or.inl (.beyond one_lt hbeyond)
          have hbyte := length.toNat_lt
          have hlen : (rest.take (length.toNat - 2)).length = length.toNat - 2 := by
            rw [List.length_take]
            omega
          refine Or.inr ⟨.sized kind (rest.take (length.toNat - 2)) one_lt (by omega),
            rest.drop (length.toNat - 2), ?_⟩
          have hlength : UInt8.ofNat ((rest.take (length.toNat - 2)).length + 2) = length := by
            rw [hlen, Nat.sub_add_cancel (by omega), UInt8.ofNat_toNat]
          rw [TcpOption.encode, hlength, List.cons_append, List.cons_append, List.take_append_drop]

/-- Every area has its options. -/
theorem exists_longest (n : ℕ) (area : List UInt8) (h : area.length ≤ n) :
    ∃ options tail, Longest area options tail := by
  induction n generalizing area with
  | zero =>
      rw [List.length_eq_zero_iff.mp (Nat.le_zero.mp h)]
      exact ⟨[], [], rfl, .nil⟩
  | succ n ih =>
      rcases exists_option area with hend | ⟨o, rest, rfl⟩
      · exact ⟨[], area, rfl, hend⟩
      · have hpos := o.length_encode_pos
        rw [List.length_append] at h
        obtain ⟨options, tail, hrest, hstops⟩ := ih rest (by omega)
        exact ⟨o :: options, tail, by
          rw [List.flatMap_cons, List.append_assoc, ← hrest], hstops⟩

/-! ### The loop -/

/-- The MSS when an option has been read. -/
def TcpOption.update (o : TcpOption) (mss : UInt16) : UInt16 :=
  o.mss?.elim mss fun value => min value defaultMss

theorem mssAfter_cons (o : TcpOption) (options : List TcpOption) (mss : UInt16) :
    mssAfter (o :: options) mss = mssAfter options (o.update mss) := by
  rw [mssAfter, mssAfter, List.filterMap_cons, TcpOption.update]
  cases o.mss? with
  | none => rfl
  | some value =>
      rw [List.getLast?_cons]
      cases (options.filterMap TcpOption.mss?).getLast? <;> rfl

/-- An MSS option gives its value, but at most `DEFAULT_MSS`. -/
theorem update_mss (one_lt : (1 : UInt8) < 2) (high low : UInt8)
    (length_lt : [high, low].length < 254) (mss : UInt16) :
    (TcpOption.sized 2 [high, low] one_lt length_lt).update mss =
      if high.toUInt16 <<< 8 ||| low.toUInt16 < defaultMss then
        high.toUInt16 <<< 8 ||| low.toUInt16 else defaultMss := by
  rw [TcpOption.update, TcpOption.mss?, if_pos rfl, Option.elim_some]
  generalize high.toUInt16 <<< 8 ||| low.toUInt16 = value
  have hmin : min value defaultMss = if value ≤ defaultMss then value else defaultMss := rfl
  rw [hmin]
  by_cases hlt : value < defaultMss
  · rw [if_pos hlt, if_pos (UInt16.le_of_lt hlt)]
  · rw [if_neg hlt]
    by_cases hle : value ≤ defaultMss
    · rw [if_pos hle]
      exact UInt16.le_antisymm hle (UInt16.not_lt.mp hlt)
    · rw [if_neg hle]

/-- Any other option leaves it. -/
theorem update_of_not_mss {kind : UInt8} {data : List UInt8} {one_lt : 1 < kind}
    {length_lt : data.length < 254} (h : ¬ (kind = 2 ∧ data.length = 2)) (mss : UInt16) :
    (TcpOption.sized kind data one_lt length_lt).update mss = mss := by
  have hnone : (TcpOption.sized kind data one_lt length_lt).mss? = none := by
    rcases data with _ | ⟨high, _ | ⟨low, _ | ⟨byte, data⟩⟩⟩
    · rfl
    · rfl
    · exact if_neg fun hkind => h ⟨hkind, rfl⟩
    · rfl
  rw [TcpOption.update, hnone]
  rfl

variable {m : ℕ → UInt8} {fuel ptr remaining : ℕ} {mss : UInt16}

theorem bytesAt_succ (m : ℕ → UInt8) (start n : ℕ) :
    bytesAt m start (n + 1) = m start :: bytesAt m (start + 1) n := by
  rw [Nat.add_comm n 1, bytesAt_add]
  rfl

/-- What is at the place of an area that begins with a byte. -/
theorem eq_cons_of_bytesAt {byte : UInt8} (h : bytesAt m ptr remaining = byte :: rest) :
    ∃ n, remaining = n + 1 ∧ m ptr = byte ∧ bytesAt m (ptr + 1) n = rest := by
  cases remaining with
  | zero => cases h
  | succ n =>
      rw [bytesAt_succ] at h
      exact ⟨n, rfl, (List.cons.inj h).1, (List.cons.inj h).2⟩

/-- Where no option begins the loop ends. -/
theorem processTcpOptions_of_optionsEnd (h : OptionsEnd (bytesAt m ptr remaining)) :
    processTcpOptions m fuel ptr remaining mss = mss := by
  cases fuel with
  | zero => rfl
  | succ fuel =>
      generalize harea : bytesAt m ptr remaining = area at h
      have hkinds {kind : UInt8} (one_lt : 1 < kind) : kind ≠ 0 ∧ kind ≠ 1 := by
        constructor <;> rintro rfl <;> exact absurd one_lt (by decide)
      cases h with
      | nil =>
          have hlen := congrArg List.length harea
          rw [length_bytesAt, List.length_nil] at hlen
          rw [processTcpOptions, if_pos hlen]
      | endOfList rest =>
          obtain ⟨n, rfl, hkind, -⟩ := eq_cons_of_bytesAt harea
          rw [processTcpOptions, if_neg (Nat.succ_ne_zero n)]
          simp only [hkind, if_true]
      | noLength one_lt =>
          obtain ⟨n, rfl, hkind, hrest⟩ := eq_cons_of_bytesAt harea
          have hlen := congrArg List.length hrest
          rw [length_bytesAt, List.length_nil] at hlen
          obtain ⟨h0, h1⟩ := hkinds one_lt
          rw [processTcpOptions, if_neg (Nat.succ_ne_zero n)]
          simp only [hkind, if_neg h0, if_neg h1, Nat.add_sub_cancel, if_pos hlen]
      | short one_lt hlength rest =>
          obtain ⟨n, rfl, hkind, hrest⟩ := eq_cons_of_bytesAt harea
          obtain ⟨n, rfl, hbyte, -⟩ := eq_cons_of_bytesAt hrest
          obtain ⟨h0, h1⟩ := hkinds one_lt
          rw [processTcpOptions, if_neg (Nat.succ_ne_zero (n + 1))]
          simp only [hkind, if_neg h0, if_neg h1, Nat.add_sub_cancel, Nat.succ_ne_zero n, if_false,
            hbyte, if_pos hlength]
      | @beyond kind length rest one_lt hlength =>
          obtain ⟨n, rfl, hkind, hrest⟩ := eq_cons_of_bytesAt harea
          obtain ⟨n, rfl, hbyte, hrest⟩ := eq_cons_of_bytesAt hrest
          have hlen := congrArg List.length hrest
          rw [length_bytesAt] at hlen
          obtain ⟨h0, h1⟩ := hkinds one_lt
          have hmss : ¬ (kind = 2 ∧ length.toNat = 4 ∧ 2 ≤ n) := by omega
          rw [processTcpOptions, if_neg (Nat.succ_ne_zero (n + 1))]
          simp only [hkind, if_neg h0, if_neg h1, Nat.add_sub_cancel, Nat.succ_ne_zero n, if_false,
            hbyte, if_neg hmss]
          rw [if_neg (by omega), if_pos (by omega)]

/-- **One turn**: an option is read. -/
theorem processTcpOptions_of_option (fuel : ℕ) (mss : UInt16)
    (h : bytesAt m ptr remaining = o.encode ++ rest) :
    ∃ n, remaining = o.encode.length + n ∧ bytesAt m (ptr + o.encode.length) n = rest ∧
      processTcpOptions m (fuel + 1) ptr remaining mss =
        processTcpOptions m fuel (ptr + o.encode.length) n (o.update mss) := by
  cases o with
  | nop =>
      obtain ⟨n, rfl, hkind, hrest⟩ := eq_cons_of_bytesAt h
      refine ⟨n, Nat.add_comm n 1, hrest, ?_⟩
      rw [processTcpOptions, if_neg (Nat.succ_ne_zero n)]
      simp only [hkind, Nat.add_sub_cancel]
      rfl
  | sized kind data one_lt length_lt =>
      rw [TcpOption.encode_sized_append] at h
      obtain ⟨n, rfl, hkind, h⟩ := eq_cons_of_bytesAt h
      obtain ⟨n, rfl, hlength, h⟩ := eq_cons_of_bytesAt h
      have hlen := congrArg List.length h
      rw [length_bytesAt, List.length_append] at hlen
      have hn : n = data.length + (n - data.length) := by omega
      rw [hn, bytesAt_add] at h
      obtain ⟨hdata, hrest⟩ := List.append_inj h (length_bytesAt _ _ _)
      have hcount := toNat_optionLength length_lt
      have h0 : kind ≠ 0 := by
        rintro rfl
        exact absurd one_lt (by decide)
      have h1 : kind ≠ 1 := by
        rintro rfl
        exact absurd one_lt (by decide)
      have hencode : (TcpOption.sized kind data one_lt length_lt).encode.length =
          data.length + 2 := rfl
      refine ⟨n - data.length, by rw [hencode]; omega, ?_, ?_⟩
      · rw [hencode, ← hrest]
        congr 1
        omega
      · rw [processTcpOptions, if_neg (Nat.succ_ne_zero (n + 1))]
        simp only [hkind, if_neg h0, if_neg h1, Nat.add_sub_cancel, Nat.succ_ne_zero n, if_false,
          hlength, hcount]
        rw [if_neg (by omega), hencode]
        by_cases hmss : kind = 2 ∧ data.length + 2 = 4 ∧ 2 ≤ n
        · obtain ⟨rfl, hfour, -⟩ := id hmss
          obtain ⟨high, low, rfl⟩ := List.length_eq_two.mp (by omega : data.length = 2)
          obtain ⟨k, hk, hhigh, hdata⟩ := eq_cons_of_bytesAt hdata
          obtain ⟨-, -, hlow, -⟩ := eq_cons_of_bytesAt hdata
          rw [if_pos hmss]
          simp only [hhigh, hlow]
          rw [update_mss]
          rfl
        · rw [if_neg hmss, if_neg (by omega), update_of_not_mss]
          rintro ⟨h2, hdata⟩
          exact hmss ⟨h2, by omega, by omega⟩

/-- **The loop**, by induction on the options. -/
theorem processTcpOptions_of_longest (h : Longest (bytesAt m ptr remaining) options tail)
    (hfuel : remaining ≤ fuel) :
    processTcpOptions m fuel ptr remaining mss = mssAfter options mss := by
  induction options generalizing ptr remaining fuel mss with
  | nil =>
      have hstops := h.stops
      rw [← List.nil_append tail, ← List.flatMap_nil, ← h.area] at hstops
      exact processTcpOptions_of_optionsEnd hstops
  | cons o options ih =>
      have harea := h.area
      rw [List.flatMap_cons, List.append_assoc] at harea
      have hpos := o.length_encode_pos
      have hlen := congrArg List.length harea
      rw [length_bytesAt, List.length_append] at hlen
      obtain ⟨fuel, rfl⟩ := Nat.exists_eq_add_one_of_ne_zero (by omega : fuel ≠ 0)
      obtain ⟨n, hn, hrest, hturn⟩ := processTcpOptions_of_option fuel mss harea
      rw [hturn, mssAfter_cons]
      exact ih ⟨hrest, h.stops⟩ (by omega)

/-- The loop reads bytes of the area. -/
theorem onlyTouches_processTcpOptionsAt (base fuel ptr remaining : ℕ) (mss : UInt16) :
    OnlyTouches (fun i => base + ptr ≤ i ∧ i < base + ptr + remaining)
      (processTcpOptionsAt base fuel ptr remaining mss) m := by
  induction fuel generalizing ptr remaining mss with
  | zero => exact Access.onlyTouches_pure _
  | succ fuel ih =>
      rw [processTcpOptionsAt]
      simp only [Access.onlyTouches_ite, Access.onlyTouches_read, Access.onlyTouches_pure]
      refine ⟨fun _ => trivial, fun hpos => ⟨by omega, fun _ => trivial, fun _ =>
        ⟨fun _ => ?_, fun _ => ⟨fun _ => trivial, fun hlast => ⟨by omega, fun _ => trivial,
          fun hshort => ⟨fun hmss => ⟨by omega, by omega, ?_⟩, fun _ => ⟨fun _ => trivial,
            fun hbeyond => ?_⟩⟩⟩⟩⟩⟩⟩
      · exact (ih _ _ _).mono fun i hi => by omega
      · exact (ih _ _ _).mono fun i hi => by omega
      · exact (ih _ _ _).mono fun i hi => by omega

/-! ### The function -/

/-- `process_tcp_options`, on the area at `options`. Its loop writes `mss`. -/
def processTcpOptionsOn (fuel : ℕ) (conn : TcpConnection) (options : ℕ) (optionsLen : UInt8) :
    Access UInt8 TcpConnection := do
  let mss ← processTcpOptionsAt options fuel 0 optionsLen.toNat conn.mss
  pure { conn with mss := mss }

/-- **Option parsing.** Every area has a longest list of options that it begins with. However long
`process_tcp_options` is let run, it sets `mss` from these, leaves the other fields, and reads
nothing outside the area. -/
theorem processTcpOptions_reads (m : ℕ → UInt8) (conn : TcpConnection) (start : ℕ)
    (optionsLen : UInt8) :
    (∃ options tail, Longest (bytesAt m start optionsLen.toNat) options tail) ∧
    ∀ fuel, optionsLen.toNat ≤ fuel →
      (∀ options tail, Longest (bytesAt m start optionsLen.toNat) options tail →
        (processTcpOptionsOn fuel conn start optionsLen).value m =
          { conn with mss := mssAfter options conn.mss }) ∧
      (∀ options, bytesAt m start optionsLen.toNat = options.flatMap TcpOption.encode →
        (processTcpOptionsOn fuel conn start optionsLen).value m =
          { conn with mss := mssAfter options conn.mss }) ∧
      OnlyTouches (fun i => start ≤ i ∧ i < start + optionsLen.toNat)
        (processTcpOptionsOn fuel conn start optionsLen) m := by
  have hvalue : ∀ fuel, optionsLen.toNat ≤ fuel → ∀ options tail,
      Longest (bytesAt m start optionsLen.toNat) options tail →
        (processTcpOptionsOn fuel conn start optionsLen).value m =
          { conn with mss := mssAfter options conn.mss } := by
    intro fuel hfuel options tail h
    have harea : bytesAt (fun i => m (start + i)) 0 optionsLen.toNat =
        bytesAt m start optionsLen.toNat := by
      rw [bytesAt_offset, Nat.add_zero]
    rw [processTcpOptionsOn, Access.value_bind, Access.value_pure, value_processTcpOptionsAt,
      processTcpOptions_of_longest (harea ▸ h) hfuel]
  refine ⟨exists_longest _ _ (Nat.le_refl _), fun fuel hfuel => ⟨hvalue fuel hfuel,
    fun options h => ?_, ?_⟩⟩
  · exact hvalue fuel hfuel options [] ⟨by rw [h, List.append_nil], .nil⟩
  · exact (Access.onlyTouches_bind_pure _ _).mpr
      (onlyTouches_processTcpOptionsAt start fuel 0 optionsLen.toNat conn.mss)

/-- Padding, an MSS option with the value 536, and the end of the list. -/
theorem processTcpOptions_reads_mss :
    (processTcpOptionsOn 6 (resetBlock 0 0 (peerSegment 0 0 tcpSyn []).header) 0 6).value
        ([1, 2, 4, 2, 24, 0].getD · 0) =
      { resetBlock 0 0 (peerSegment 0 0 tcpSyn []).header with mss := 536 } :=
  ((processTcpOptions_reads ([1, 2, 4, 2, 24, 0].getD · 0)
    (resetBlock 0 0 (peerSegment 0 0 tcpSyn []).header) 0 6).2 6 (Nat.le_refl _)).1
    [.nop, .sized 2 [2, 24] (by decide) (by decide)] [0] ⟨rfl, .endOfList []⟩

end HalOS

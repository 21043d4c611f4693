import HalOS.Mm.LiballocTags

/-!
# How the Tags Divide the Heap's Pages

The tags of a run of pages follow one another from its beginning to its end without a gap, and
each knows its two neighbours. This is kept by the three ways in which `malloc` and `free` change
the division: a tag is cut in two, two neighbours become one, and whole runs come and go.

## Main results

* `Tiled.join`, `Tiled.carve`: neighbours joined, and a tag cut in two.
* `Tiled.begin`, `Tiled.erase`: a run of pages more, and one less.
-/

namespace HalOS

namespace Liballoc

open Records (Spaced)

/-- The tags divide the runs of pages they lie in; `home` has the beginning and the length of the
run of each tag. -/
structure Tiled (V : Tags) (tags : Finset ℕ) (home : ℕ → ℕ × ℕ) : Prop where
  magic : ∀ p ∈ tags, V p .magic = liballocMagic
  room : ∀ p ∈ tags, 32 ≤ V p .realSize
  /-- A run is not at address zero, and ends where the addresses end, or before. -/
  bounds : ∀ p ∈ tags, 0 < (home p).1 ∧ (home p).1 + (home p).2 ≤ 2 ^ 32
  pages : ∀ p ∈ tags, ∃ n, pageCount ≤ n ∧ (home p).2 = n * pageSize
  inside : ∀ p ∈ tags, (home p).1 ≤ p ∧ p + V p .realSize ≤ (home p).1 + (home p).2
  apart : ∀ p ∈ tags, ∀ q ∈ tags, p < q → p + V p .realSize ≤ q
  runs : ∀ p ∈ tags, ∀ q ∈ tags, home p ≠ home q →
    (home p).1 + (home p).2 ≤ (home q).1 ∨ (home q).1 + (home q).2 ≤ (home p).1
  first : ∀ p ∈ tags, V p .splitLeft = 0 → p = (home p).1
  left : ∀ p ∈ tags, V p .splitLeft ≠ 0 →
    V p .splitLeft ∈ tags ∧ V (V p .splitLeft) .splitRight = p
  last : ∀ p ∈ tags, V p .splitRight = 0 → p + V p .realSize = (home p).1 + (home p).2
  right : ∀ p ∈ tags, V p .splitRight ≠ 0 → V p .splitRight ∈ tags ∧
    V p .splitRight = p + V p .realSize ∧ home (V p .splitRight) = home p ∧
    V (V p .splitRight) .splitLeft = p

section Tiling

variable {V W : Tags} {tags : Finset ℕ} {home : ℕ → ℕ × ℕ} {p : ℕ}

theorem Tiled.pos (h : Tiled V tags home) (hp : p ∈ tags) : 0 < p :=
  lt_of_lt_of_le (h.bounds p hp).1 (h.inside p hp).1

theorem Tiled.zero_notMem (h : Tiled V tags home) : 0 ∉ tags := fun h0 => absurd (h.pos h0) (by simp)

theorem Tiled.end_le (h : Tiled V tags home) (hp : p ∈ tags) : p + V p .realSize ≤ 2 ^ 32 :=
  (h.inside p hp).2.trans (h.bounds p hp).2

theorem Tiled.lt (h : Tiled V tags home) (hp : p ∈ tags) : p < 2 ^ 32 := by
  have := h.end_le hp
  have := h.room p hp
  omega

theorem sizeOf_tagField : Records.sizeOf TagField = 32 := rfl

theorem Tiled.spaced (h : Tiled V tags home) : Spaced TagField (tags : Set ℕ) := by
  intro p hp q hq
  have hrp := h.room p hp
  have hrq := h.room q hq
  rw [Records.Separate, sizeOf_tagField]
  rcases Nat.lt_trichotomy p q with hlt | heq | hlt
  · have := h.apart p hp q hq hlt
    omega
  · exact Or.inl heq
  · have := h.apart q hq p hp hlt
    omega

theorem Tiled.congr (h : Tiled V tags home) (hmagic : ∀ p ∈ tags, W p .magic = V p .magic)
    (hreal : ∀ p ∈ tags, W p .realSize = V p .realSize)
    (hleft : ∀ p ∈ tags, W p .splitLeft = V p .splitLeft)
    (hright : ∀ p ∈ tags, W p .splitRight = V p .splitRight) : Tiled W tags home where
  magic p hp := (hmagic p hp).trans (h.magic p hp)
  room p hp := by
    rw [hreal p hp]
    exact h.room p hp
  bounds := h.bounds
  pages := h.pages
  inside p hp := by
    rw [hreal p hp]
    exact h.inside p hp
  apart p hp := by
    rw [hreal p hp]
    exact h.apart p hp
  runs := h.runs
  first p hp := by
    rw [hleft p hp]
    exact h.first p hp
  left p hp := by
    rw [hleft p hp]
    intro hne
    obtain ⟨hmem, hback⟩ := h.left p hp hne
    exact ⟨hmem, (hright _ hmem).trans hback⟩
  last p hp := by
    rw [hright p hp, hreal p hp]
    exact h.last p hp
  right p hp := by
    rw [hright p hp, hreal p hp]
    intro hne
    obtain ⟨hmem, heq, hhome, hback⟩ := h.right p hp hne
    exact ⟨hmem, heq, hhome, (hleft _ hmem).trans hback⟩

/-- A neighbour to the left ends where the tag begins. -/
theorem Tiled.left_end (h : Tiled V tags home) (hp : p ∈ tags) (hne : V p .splitLeft ≠ 0) :
    V p .splitLeft + V (V p .splitLeft) .realSize = p ∧ home (V p .splitLeft) = home p := by
  obtain ⟨hmem, hback⟩ := h.left p hp hne
  have hp0 : V (V p .splitLeft) .splitRight ≠ 0 := by
    rw [hback]
    exact Nat.ne_of_gt (h.pos hp)
  obtain ⟨-, heq, hhome, -⟩ := h.right _ hmem hp0
  rw [hback] at heq hhome
  exact ⟨heq.symm, hhome.symm⟩

theorem Tiled.left_ne (h : Tiled V tags home) (hp : p ∈ tags) (hne : V p .splitLeft ≠ 0) :
    V p .splitLeft ≠ p := by
  have := (h.left_end hp hne).1
  have := h.room _ (h.left p hp hne).1
  omega

theorem Tiled.right_ne (h : Tiled V tags home) (hp : p ∈ tags) (hne : V p .splitRight ≠ 0) :
    V p .splitRight ≠ p := by
  have := (h.right p hp hne).2.1
  have := h.room p hp
  omega

/-! ### Two neighbours become one -/

/-- A tag takes the room of its neighbour to the right. -/
theorem Tiled.join (h : Tiled V tags home) {l : ℕ} (hl : l ∈ tags) (hp : p ∈ tags)
    (hlp : V l .splitRight = p) : Tiled (V.join l p) (tags.erase p) home := by
  have hp0 : V l .splitRight ≠ 0 := by
    rw [hlp]
    exact Nat.ne_of_gt (h.pos hp)
  obtain ⟨-, hadd, hhome, hback⟩ := h.right l hl hp0
  rw [hlp] at hadd hhome hback
  have hroom := h.room p hp
  have hlroom := h.room l hl
  have hend := h.end_le hp
  have hreal : u32 (V l .realSize + V p .realSize) = V l .realSize + V p .realSize :=
    u32_of_lt (by have := h.pos hl; omega)
  have hjoined : ∀ r, (V.join l p) r .realSize =
      if r = l then V l .realSize + V p .realSize else V r .realSize := by
    intro r
    rw [← hreal]
    rfl
  have hlne : l ≠ p := fun heq => by omega
  -- what is beyond `p` becomes the neighbour of `l`
  have hbeyond : ∀ r ∈ tags, r ≠ p → V p .splitRight ≠ r → V r .splitLeft ≠ p := by
    intro r hr hne hnot heq
    have := (h.left r hr (by rw [heq]; exact Nat.ne_of_gt (h.pos hp))).2
    rw [heq] at this
    exact hnot this
  refine ⟨?_, ?_, ?_, ?_, ?_, ?_, ?_, ?_, ?_, ?_, ?_⟩
  · exact fun r hr => h.magic r (Finset.mem_of_mem_erase hr)
  · intro r hr
    rw [hjoined]
    have := h.room r (Finset.mem_of_mem_erase hr)
    split_ifs <;> omega
  · exact fun r hr => h.bounds r (Finset.mem_of_mem_erase hr)
  · exact fun r hr => h.pages r (Finset.mem_of_mem_erase hr)
  · intro r hr
    have hr := Finset.mem_of_mem_erase hr
    rw [hjoined]
    split_ifs with hrl
    · subst hrl
      have := h.inside p hp
      have := h.inside r hl
      rw [hhome] at *
      omega
    · exact h.inside r hr
  · intro r hr q hq hrq
    obtain ⟨hqne, hq⟩ := Finset.mem_erase.mp hq
    have hr := Finset.mem_of_mem_erase hr
    have hap := h.apart r hr q hq hrq
    rw [hjoined]
    split_ifs with hrl
    · subst hrl
      have := h.apart p hp q hq (by omega)
      omega
    · exact hap
  · exact fun r hr q hq =>
      h.runs r (Finset.mem_of_mem_erase hr) q (Finset.mem_of_mem_erase hq)
  · intro r hr
    obtain ⟨-, hr⟩ := Finset.mem_erase.mp hr
    change (if r = V p .splitRight then l else V r .splitLeft) = 0 → _
    split_ifs
    · exact fun h0 => absurd h0 (Nat.ne_of_gt (h.pos hl))
    · exact h.first r hr
  · intro r hr
    obtain ⟨hrne, hr⟩ := Finset.mem_erase.mp hr
    change (if r = V p .splitRight then l else V r .splitLeft) ≠ 0 → _
    intro hne
    change (if r = V p .splitRight then l else V r .splitLeft) ∈ _ ∧
      (if (if r = V p .splitRight then l else V r .splitLeft) = l then V p .splitRight
        else V (if r = V p .splitRight then l else V r .splitLeft) .splitRight) = r
    split_ifs at hne ⊢ with hrp hxl hxl
    · exact ⟨Finset.mem_erase.mpr ⟨hlne, hl⟩, hrp.symm⟩
    · exact absurd rfl hxl
    · have := (h.left r hr hne).2
      rw [hxl, hlp] at this
      exact absurd this.symm hrne
    · obtain ⟨hmem, hrr⟩ := h.left r hr hne
      exact ⟨Finset.mem_erase.mpr ⟨hbeyond r hr hrne (Ne.symm hrp), hmem⟩, hrr⟩
  · intro r hr
    obtain ⟨-, hr⟩ := Finset.mem_erase.mp hr
    change (if r = l then V p .splitRight else V r .splitRight) = 0 → _
    rw [hjoined]
    split_ifs with hrl
    · subst hrl
      intro h0
      have := h.last p hp h0
      rw [hhome] at this
      omega
    · exact h.last r hr
  · intro r hr
    obtain ⟨hrne, hr⟩ := Finset.mem_erase.mp hr
    change (if r = l then V p .splitRight else V r .splitRight) ≠ 0 → _
    intro hne
    change (if r = l then V p .splitRight else V r .splitRight) ∈ _ ∧ _ ∧ _ ∧
      (if (if r = l then V p .splitRight else V r .splitRight) = V p .splitRight then l
        else V (if r = l then V p .splitRight else V r .splitRight) .splitLeft) = r
    rw [hjoined]
    change _ ∧ (if r = l then V p .splitRight else V r .splitRight) = _ ∧
      home (if r = l then V p .splitRight else V r .splitRight) = _ ∧ _
    split_ifs at hne ⊢ with hrl hxp hxp
    · obtain ⟨hmem, heq, hh, -⟩ := h.right p hp hne
      refine ⟨Finset.mem_erase.mpr ⟨h.right_ne hp hne, hmem⟩, by omega, ?_, hrl.symm⟩
      rw [hh, hhome, hrl]
    · exact absurd rfl hxp
    · obtain ⟨-, -, -, hrr⟩ := h.right r hr hne
      rw [hxp, (h.right p hp (hxp ▸ hne)).2.2.2] at hrr
      exact absurd hrr.symm hrne
    · obtain ⟨hmem, heq, hh, hrr⟩ := h.right r hr hne
      refine ⟨Finset.mem_erase.mpr ⟨fun hxp => ?_, hmem⟩, heq, hh, hrr⟩
      rw [hxp, hback] at hrr
      exact hrl hrr.symm

/-! ### A tag is cut in two -/

/-- The bytes of a tag belong to no other tag. -/
theorem Tiled.notMem_of_inside (h : Tiled V tags home) (hp : p ∈ tags) {x : ℕ} (hx : p < x)
    (hlt : x < p + V p .realSize) : x ∉ tags := by
  intro hmem
  have := h.apart p hp x hmem hx
  omega

/-- A tag is cut after `keep` bytes. -/
theorem Tiled.carve (h : Tiled V tags home) (hp : p ∈ tags) {keep rest : ℕ} (hkeep : 32 ≤ keep)
    (hrest : 32 ≤ rest) (hsum : keep + rest = V p .realSize) :
    Tiled (V.carve p (p + keep) rest) (insert (p + keep) tags)
      (Function.update home (p + keep) (home p)) := by
  have hnew : p + keep ∉ tags := h.notMem_of_inside hp (by omega) (by omega)
  have hne : ∀ r ∈ tags, r ≠ p + keep := fun r hr heq => hnew (heq ▸ hr)
  have hend := h.end_le hp
  have hpos := h.pos hp
  have hin := h.inside p hp
  have hcut : u32 (V p .realSize + 2 ^ 32 - rest) = keep := by
    rw [u32]
    omega
  have hreal : ∀ r, (V.carve p (p + keep) rest) r .realSize =
      if r = p + keep then rest else if r = p then keep else V r .realSize := by
    intro r
    rw [← hcut]
    rfl
  -- the neighbours that the tags have now
  have hleftnew : (V.carve p (p + keep) rest) (p + keep) .splitLeft = p := if_pos rfl
  have hleftbeyond : ∀ r ∈ tags, r = V p .splitRight →
      (V.carve p (p + keep) rest) r .splitLeft = p + keep :=
    fun r hr heq => (if_neg (hne r hr)).trans (if_pos heq)
  have hleft : ∀ r ∈ tags, r ≠ V p .splitRight →
      (V.carve p (p + keep) rest) r .splitLeft = V r .splitLeft :=
    fun r hr hrr => (if_neg (hne r hr)).trans (if_neg hrr)
  have hrightnew : (V.carve p (p + keep) rest) (p + keep) .splitRight = V p .splitRight :=
    if_pos rfl
  have hrightp : (V.carve p (p + keep) rest) p .splitRight = p + keep :=
    (if_neg (hne p hp)).trans (if_pos rfl)
  have hright : ∀ r ∈ tags, r ≠ p → (V.carve p (p + keep) rest) r .splitRight = V r .splitRight :=
    fun r hr hrp => (if_neg (hne r hr)).trans (if_neg hrp)
  -- and the runs they lie in
  have hhome : ∀ r ∈ tags, Function.update home (p + keep) (home p) r = home r := fun r hr =>
    Function.update_of_ne (hne r hr) _ _
  have hhnew : Function.update home (p + keep) (home p) (p + keep) = home p :=
    Function.update_self _ _ _
  constructor
  case magic =>
    intro r hr
    change (if r = p + keep then liballocMagic else V r .magic) = _
    split_ifs with hrn
    · rfl
    · exact h.magic r ((Finset.mem_insert.mp hr).resolve_left hrn)
  case room =>
    intro r hr
    rw [hreal]
    split_ifs with hrn hrp
    · exact hrest
    · exact hkeep
    · exact h.room r ((Finset.mem_insert.mp hr).resolve_left hrn)
  case bounds =>
    intro r hr
    rcases Finset.mem_insert.mp hr with rfl | hr
    · rw [hhnew]
      exact h.bounds p hp
    · rw [hhome r hr]
      exact h.bounds r hr
  case pages =>
    intro r hr
    rcases Finset.mem_insert.mp hr with rfl | hr
    · rw [hhnew]
      exact h.pages p hp
    · rw [hhome r hr]
      exact h.pages r hr
  case inside =>
    intro r hr
    rw [hreal]
    rcases Finset.mem_insert.mp hr with rfl | hr
    · rw [hhnew, if_pos rfl]
      omega
    · rw [hhome r hr, if_neg (hne r hr)]
      have := h.inside r hr
      split_ifs with hrp
      · subst hrp
        omega
      · exact this
  case apart =>
    intro r hr q hq hrq
    rw [hreal]
    rcases Finset.mem_insert.mp hr with rfl | hr <;> rcases Finset.mem_insert.mp hq with rfl | hq
    · omega
    · rw [if_pos rfl]
      have := h.apart p hp q hq (by omega)
      omega
    · rw [if_neg (hne r hr)]
      split_ifs with hrp
      · omega
      · rcases Nat.lt_trichotomy r p with hlt | heq | hlt
        · have := h.apart r hr p hp hlt
          omega
        · exact absurd heq hrp
        · have := h.apart p hp r hr hlt
          omega
    · rw [if_neg (hne r hr)]
      have := h.apart r hr q hq hrq
      split_ifs with hrp
      · subst hrp
        omega
      · exact this
  case runs =>
    intro r hr q hq
    rcases Finset.mem_insert.mp hr with rfl | hr <;> rcases Finset.mem_insert.mp hq with rfl | hq
    · exact fun hdiff => absurd rfl hdiff
    · rw [hhnew, hhome q hq]
      exact h.runs p hp q hq
    · rw [hhnew, hhome r hr]
      exact h.runs r hr p hp
    · rw [hhome r hr, hhome q hq]
      exact h.runs r hr q hq
  case first =>
    intro r hr
    rcases Finset.mem_insert.mp hr with rfl | hr
    · rw [hleftnew]
      omega
    · rw [hhome r hr]
      by_cases hrr : r = V p .splitRight
      · rw [hleftbeyond r hr hrr]
        omega
      · rw [hleft r hr hrr]
        exact h.first r hr
  case left =>
    intro r hr
    rcases Finset.mem_insert.mp hr with rfl | hr
    · rw [hleftnew]
      exact fun _ => ⟨Finset.mem_insert_of_mem hp, hrightp⟩
    · by_cases hrr : r = V p .splitRight
      · rw [hleftbeyond r hr hrr]
        exact fun _ => ⟨Finset.mem_insert_self _ _, hrightnew.trans hrr.symm⟩
      · rw [hleft r hr hrr]
        intro h0
        obtain ⟨hmem, hback⟩ := h.left r hr h0
        refine ⟨Finset.mem_insert_of_mem hmem, ?_⟩
        rw [hright _ hmem, hback]
        exact fun heq => hrr (by rw [← heq, hback])
  case last =>
    intro r hr
    rw [hreal]
    rcases Finset.mem_insert.mp hr with rfl | hr
    · rw [hrightnew, hhnew, if_pos rfl]
      intro h0
      have := h.last p hp h0
      omega
    · rw [hhome r hr, if_neg (hne r hr)]
      by_cases hrp : r = p
      · subst hrp
        rw [hrightp]
        omega
      · rw [hright r hr hrp, if_neg hrp]
        exact h.last r hr
  case right =>
    intro r hr
    rw [hreal]
    rcases Finset.mem_insert.mp hr with rfl | hr
    · rw [hrightnew, hhnew, if_pos rfl]
      intro h0
      obtain ⟨hmem, heq, hh, -⟩ := h.right p hp h0
      exact ⟨Finset.mem_insert_of_mem hmem, by omega, (hhome _ hmem).trans hh,
        hleftbeyond _ hmem rfl⟩
    · rw [hhome r hr, if_neg (hne r hr)]
      by_cases hrp : r = p
      · subst hrp
        rw [hrightp, if_pos rfl]
        exact fun _ => ⟨Finset.mem_insert_self _ _, rfl, hhnew, hleftnew⟩
      · rw [hright r hr hrp, if_neg hrp]
        intro h0
        obtain ⟨hmem, heq, hh, hback⟩ := h.right r hr h0
        refine ⟨Finset.mem_insert_of_mem hmem, heq, (hhome _ hmem).trans hh, ?_⟩
        rw [hleft _ hmem, hback]
        intro hbeyond
        -- only `p` has the tag beyond `p` to its right
        have hp0 : V p .splitRight ≠ 0 := fun h0 => absurd (h.pos hmem) (by rw [hbeyond, h0]; simp)
        have := (h.right p hp hp0).2.2.2
        rw [← hbeyond, hback] at this
        exact hrp this

/-! ### Runs of pages come and go -/

/-- A new run, which lies apart from all others, with one tag. -/
theorem Tiled.begin (h : Tiled V tags home) {a n size : ℕ} (ha : 0 < a) (hn : pageCount ≤ n)
    (hend : a + n * pageSize ≤ 2 ^ 32)
    (hapart : ∀ p ∈ tags, (home p).1 + (home p).2 ≤ a ∨ a + n * pageSize ≤ (home p).1) :
    Tiled (V.begin a size (n * pageSize)) (insert a tags)
      (Function.update home a (a, n * pageSize)) := by
  have hlen : 32 ≤ n * pageSize := by
    rw [pageSize]
    have : 16 ≤ n := hn
    omega
  have houtside : ∀ r ∈ tags, r + V r .realSize ≤ a ∨ a + n * pageSize ≤ r := by
    intro r hr
    have := h.inside r hr
    have := hapart r hr
    omega
  have hne : ∀ r ∈ tags, r ≠ a := by
    rintro r hr rfl
    have := h.room r hr
    have := houtside r hr
    omega
  have hsame : ∀ r ∈ tags, ∀ f, (V.begin a size (n * pageSize)) r f = V r f := fun r hr f =>
    if_neg (hne r hr)
  have hself : (V.begin a size (n * pageSize)) a .realSize = n * pageSize := if_pos rfl
  have hhome : ∀ r ∈ tags, Function.update home a (a, n * pageSize) r = home r := fun r hr =>
    Function.update_of_ne (hne r hr) _ _
  have hhnew : Function.update home a (a, n * pageSize) a = (a, n * pageSize) :=
    Function.update_self _ _ _
  constructor
  case magic =>
    intro r hr
    rcases Finset.mem_insert.mp hr with rfl | hr
    · exact if_pos rfl
    · exact (hsame r hr _).trans (h.magic r hr)
  case room =>
    intro r hr
    rcases Finset.mem_insert.mp hr with rfl | hr
    · rw [hself]
      exact hlen
    · rw [hsame r hr]
      exact h.room r hr
  case bounds =>
    intro r hr
    rcases Finset.mem_insert.mp hr with rfl | hr
    · rw [hhnew]
      exact ⟨ha, hend⟩
    · rw [hhome r hr]
      exact h.bounds r hr
  case pages =>
    intro r hr
    rcases Finset.mem_insert.mp hr with rfl | hr
    · rw [hhnew]
      exact ⟨n, hn, rfl⟩
    · rw [hhome r hr]
      exact h.pages r hr
  case inside =>
    intro r hr
    rcases Finset.mem_insert.mp hr with rfl | hr
    · rw [hhnew, hself]
      exact ⟨le_rfl, le_rfl⟩
    · rw [hhome r hr, hsame r hr]
      exact h.inside r hr
  case apart =>
    intro r hr q hq hrq
    rcases Finset.mem_insert.mp hr with hra | hr
    · rw [hra, hself]
      have hqt := (Finset.mem_insert.mp hq).resolve_left fun heq => by omega
      have := houtside q hqt
      have := hne q hqt
      omega
    · rw [hsame r hr]
      rcases Finset.mem_insert.mp hq with hqa | hq
      · have := houtside r hr
        omega
      · exact h.apart r hr q hq hrq
  case runs =>
    intro r hr q hq
    rcases Finset.mem_insert.mp hr with hra | hr <;> rcases Finset.mem_insert.mp hq with hqa | hq
    · rw [hra, hqa]
      exact fun hdiff => absurd rfl hdiff
    · rw [hra, hhnew, hhome q hq]
      exact fun _ => (hapart q hq).symm
    · rw [hqa, hhnew, hhome r hr]
      exact fun _ => hapart r hr
    · rw [hhome r hr, hhome q hq]
      exact h.runs r hr q hq
  case first =>
    intro r hr
    rcases Finset.mem_insert.mp hr with rfl | hr
    · rw [hhnew]
      exact fun _ => rfl
    · rw [hsame r hr, hhome r hr]
      exact h.first r hr
  case left =>
    intro r hr
    rcases Finset.mem_insert.mp hr with rfl | hr
    · exact fun h0 => absurd (if_pos rfl) h0
    · rw [hsame r hr]
      intro h0
      obtain ⟨hmem, hback⟩ := h.left r hr h0
      exact ⟨Finset.mem_insert_of_mem hmem, (hsame _ hmem _).trans hback⟩
  case last =>
    intro r hr
    rcases Finset.mem_insert.mp hr with rfl | hr
    · rw [hhnew, hself]
      exact fun _ => rfl
    · rw [hsame r hr, hsame r hr, hhome r hr]
      exact h.last r hr
  case right =>
    intro r hr
    rcases Finset.mem_insert.mp hr with rfl | hr
    · exact fun h0 => absurd (if_pos rfl) h0
    · rw [hsame r hr, hsame r hr, hhome r hr]
      intro h0
      obtain ⟨hmem, heq, hh, hback⟩ := h.right r hr h0
      exact ⟨Finset.mem_insert_of_mem hmem, heq, (hhome _ hmem).trans hh,
        (hsame _ hmem _).trans hback⟩

/-- A run that consists of one tag goes. -/
theorem Tiled.erase (h : Tiled V tags home) (hp : p ∈ tags) (hleft : V p .splitLeft = 0)
    (hright : V p .splitRight = 0) : Tiled V (tags.erase p) home := by
  have hp0 : p ≠ 0 := Nat.ne_of_gt (h.pos hp)
  constructor
  case left =>
    intro r hr hne
    obtain ⟨hmem, hback⟩ := h.left r (Finset.mem_of_mem_erase hr) hne
    refine ⟨Finset.mem_erase.mpr ⟨fun heq => ?_, hmem⟩, hback⟩
    rw [heq, hright] at hback
    exact h.zero_notMem (hback ▸ Finset.mem_of_mem_erase hr)
  case right =>
    intro r hr hne
    obtain ⟨hmem, heq, hh, hback⟩ := h.right r (Finset.mem_of_mem_erase hr) hne
    refine ⟨Finset.mem_erase.mpr ⟨fun heqp => ?_, hmem⟩, heq, hh, hback⟩
    rw [heqp, hleft] at hback
    exact h.zero_notMem (hback ▸ Finset.mem_of_mem_erase hr)
  case magic => exact fun r hr => h.magic r (Finset.mem_of_mem_erase hr)
  case room => exact fun r hr => h.room r (Finset.mem_of_mem_erase hr)
  case bounds => exact fun r hr => h.bounds r (Finset.mem_of_mem_erase hr)
  case pages => exact fun r hr => h.pages r (Finset.mem_of_mem_erase hr)
  case inside => exact fun r hr => h.inside r (Finset.mem_of_mem_erase hr)
  case apart =>
    exact fun r hr q hq => h.apart r (Finset.mem_of_mem_erase hr) q (Finset.mem_of_mem_erase hq)
  case runs =>
    exact fun r hr q hq => h.runs r (Finset.mem_of_mem_erase hr) q (Finset.mem_of_mem_erase hq)
  case first => exact fun r hr => h.first r (Finset.mem_of_mem_erase hr)
  case last => exact fun r hr => h.last r (Finset.mem_of_mem_erase hr)

/-- A whole tag is its run of pages. -/
theorem Tiled.whole (h : Tiled V tags home) (hp : p ∈ tags) (hleft : V p .splitLeft = 0)
    (hright : V p .splitRight = 0) : home p = (p, V p .realSize) := by
  have hfirst := h.first p hp hleft
  have hlast := h.last p hp hright
  exact Prod.ext hfirst.symm (by dsimp only; omega)

end Tiling

end Liballoc

end HalOS

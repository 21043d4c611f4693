import HalOS.Mm.VmmSound

/-!
# The Frames of Live Allocations

A run of allocations and matching frees carries the list of the allocations that are live.
Their pages are backed by pairwise distinct blocks in use (`FramesDistinct`), as long as no
`dma_alloc` strands its blocks: finds them, is then refused by `vmm_alloc_contiguous`, and
maps them over the pages from address zero on. The first table serves these pages and the
window, so the blocks appear behind live pages.

## Main results

* `LiveInv.keeps`: what leaves the live pages and their blocks alone keeps the invariant.
* `LiveInv.cons`, `LiveInv.free`: allocations and frees keep it.
* `live_frames_distinct`: the frames of live allocations, in every run without stranded blocks.
-/

namespace HalOS

/-! ### Live allocations -/

/-- The allocations that can be freed again, with what they ask for. -/
inductive LiveKind
  | page
  | contiguous (pages : UInt32)
  | dma (size : UInt32)
deriving DecidableEq

namespace LiveKind

def alloc (s : Vmm) : LiveKind → UInt32 × Vmm
  | page => vmmAllocPage s
  | contiguous n => vmmAllocContiguous s n
  | dma size => dmaAlloc s size

/-- The matching free. -/
def free (s : Vmm) (addr : UInt32) : LiveKind → Vmm
  | page => vmmFreePage s addr
  | contiguous n => vmmFreeContiguous s addr n
  | dma size => dmaFree s addr size

/-- The number of pages. -/
def pages : LiveKind → ℕ
  | page => 1
  | contiguous n => n.toNat
  | dma size => (dmaPages size).toNat

/-- `dma_alloc` finds its blocks, and with these taken `vmm_alloc_contiguous` has no run of
pages, blocks or page tables left. -/
def Strands (s : Vmm) : LiveKind → Prop
  | dma size =>
      ¬ s.pmm.RangeFull (dmaPages size) 0x100000 0x1000000 ∧
        (vmmAllocContiguous (s.withPmm
          (pmmAllocBlocksInRange s.pmm (dmaPages size) 0x100000 0x1000000).2)
          (dmaPages size)).1 = 0
  | _ => False

end LiveKind

/-- A live allocation: what was asked for, and the address that was returned. -/
structure Live where
  kind : LiveKind
  addr : UInt32
deriving DecidableEq

/-- The addresses of the pages of an allocation. -/
def Live.addrs (l : Live) : List UInt32 :=
  (List.range l.kind.pages).map fun k => l.addr + UInt32.ofNat k * 4096

/-- The addresses of all live pages. -/
def liveAddrs (live : List Live) : List UInt32 := live.flatMap Live.addrs

/-- The live pages are backed by pairwise distinct blocks, all in use. -/
def FramesDistinct (s : Vmm) (live : List Live) : Prop :=
  ((liveAddrs live).map (virtToPhys s.paging)).Nodup ∧
    ∀ a ∈ liveAddrs live, ∃ b < s.pmm.bound, s.pmm.isUsed b = true ∧
      virtToPhys s.paging a = blockAddr b

/-- The states that allocations which `ok` allows and matching frees lead to after start-up,
with the allocations live there. -/
inductive LiveRun (ok : Vmm → LiveKind → Prop) (boot : Boot) : Vmm → List Live → Prop
  | boot : LiveRun ok boot boot.kmain []
  | alloc {s : Vmm} {live : List Live} (k : LiveKind) : ok s k → LiveRun ok boot s live →
      LiveRun ok boot (k.alloc s).2
        (if (k.alloc s).1 = 0 then live else ⟨k, (k.alloc s).1⟩ :: live)
  | free {s : Vmm} {live : List Live} (l : Live) : l ∈ live → LiveRun ok boot s live →
      LiveRun ok boot (l.kind.free s l.addr) (live.erase l)

/-! ### The invariant -/

/-- The pages of `l` are those from `i` on, taken, and backed by the blocks from `b` on, in use
and holding no page table. -/
structure PlacedAt (s : Vmm) (l : Live) (i b : ℕ) : Prop where
  pos : 0 < l.kind.pages
  addr : l.addr = pageAddr i
  page : ∀ k < l.kind.pages, i + k < s.bound ∧ isPageFree s (i + k) = false
  block : ∀ k < l.kind.pages, b + k < s.pmm.bound ∧ s.pmm.isUsed (b + k) = true ∧
    ¬ s.paging.Holds (blockAddr (b + k))
  frame : ∀ k < l.kind.pages, ∃ e, s.paging.entry (pageNum (pageAddr (i + k))) = some e ∧
    pageBase e = blockAddr (b + k)

structure LiveInv (s : Vmm) (live : List Live) : Prop where
  sound : s.paging.Sound
  bound_le : s.bound ≤ 0x40000
  placed : ∀ l ∈ live, ∃ i b, PlacedAt s l i b
  nodup : ((liveAddrs live).map (virtToPhys s.paging)).Nodup

theorem mem_addrs {l : Live} {a : UInt32} :
    a ∈ l.addrs ↔ ∃ k < l.kind.pages, l.addr + UInt32.ofNat k * 4096 = a := by
  simp [Live.addrs]

theorem mem_liveAddrs {live : List Live} {a : UInt32} :
    a ∈ liveAddrs live ↔ ∃ l ∈ live, a ∈ l.addrs := List.mem_flatMap

@[simp] theorem liveAddrs_cons (l : Live) (live : List Live) :
    liveAddrs (l :: live) = l.addrs ++ liveAddrs live := List.flatMap_cons

namespace PlacedAt

variable {s s' : Vmm} {l : Live} {i b k : ℕ} {P Q : ℕ → Prop}

theorem virtToPhys (h : PlacedAt s l i b) (hk : k < l.kind.pages) :
    HalOS.virtToPhys s.paging (l.addr + UInt32.ofNat k * 4096) = blockAddr (b + k) := by
  obtain ⟨e, he, hbase⟩ := h.frame k hk
  rw [h.addr, pageAddr_add, virtToPhys_pageAddr he, hbase]

theorem keeps (h : PlacedAt s l i b) (hk : Keeps P Q s s') (hP : ∀ k < l.kind.pages, P (i + k))
    (hQ : ∀ k < l.kind.pages, Q (b + k)) : PlacedAt s' l i b where
  pos := h.pos
  addr := h.addr
  page := fun k hlt => by
    obtain ⟨hb, hfree⟩ := h.page k hlt
    refine ⟨?_, (hk.free _ (hP k hlt)).trans hfree⟩
    rw [Vmm.bound, hk.maxPages]
    exact hb
  block := fun k hlt => by
    obtain ⟨hb, hused, hheld⟩ := h.block k hlt
    exact ⟨by rwa [hk.bound], hk.used _ hb (hQ k hlt) hused,
      fun ht => hheld (hk.tables _ hb (hQ k hlt) hused ht)⟩
  frame := fun k hlt => by
    rw [hk.entry _ (hP k hlt)]
    exact h.frame k hlt

/-- The pages of a live allocation are taken. -/
theorem taken (h : PlacedAt s l i b) (hb : s.bound ≤ 0x40000) (hk : k < l.kind.pages) :
    Taken s (i + k) := by
  obtain ⟨hlt, hfree⟩ := h.page k hk
  exact ⟨hfree, fun j hj _ => ⟨by omega, by omega, by omega, by omega⟩⟩

end PlacedAt

namespace LiveInv

variable {s s' : Vmm} {live live' : List Live} {P Q : ℕ → Prop}

theorem framesDistinct (h : LiveInv s live) : FramesDistinct s live := by
  refine ⟨h.nodup, fun a ha => ?_⟩
  obtain ⟨l, hl, hal⟩ := mem_liveAddrs.mp ha
  obtain ⟨k, hk, rfl⟩ := mem_addrs.mp hal
  obtain ⟨i, b, hplaced⟩ := h.placed l hl
  obtain ⟨hlt, hused, -⟩ := hplaced.block k hk
  exact ⟨b + k, hlt, hused, hplaced.virtToPhys hk⟩

theorem perm (h : LiveInv s live) (hp : live.Perm live') : LiveInv s live' where
  sound := h.sound
  bound_le := h.bound_le
  placed := fun l hl => h.placed l (hp.mem_iff.mpr hl)
  nodup := ((hp.flatMap_right Live.addrs).map _).nodup_iff.mp h.nodup

/-- **What leaves the live pages and their blocks alone** keeps the invariant. -/
theorem keeps (h : LiveInv s live) (hk : Keeps P Q s s')
    (hlive : ∀ l ∈ live, ∀ i b, PlacedAt s l i b → ∀ k < l.kind.pages, P (i + k) ∧ Q (b + k)) :
    LiveInv s' live := by
  have hplaced : ∀ l ∈ live, ∀ i b, PlacedAt s l i b → PlacedAt s' l i b := fun l hl i b hp =>
    hp.keeps hk (fun k hlt => (hlive l hl i b hp k hlt).1) fun k hlt => (hlive l hl i b hp k hlt).2
  have hsame : (liveAddrs live).map (virtToPhys s'.paging) =
      (liveAddrs live).map (virtToPhys s.paging) := by
    refine List.map_congr_left fun a ha => ?_
    obtain ⟨l, hl, hal⟩ := mem_liveAddrs.mp ha
    obtain ⟨k, hlt, rfl⟩ := mem_addrs.mp hal
    obtain ⟨i, b, hp⟩ := h.placed l hl
    rw [hp.virtToPhys hlt, (hplaced l hl i b hp).virtToPhys hlt]
  refine ⟨hk.sound, ?_, fun l hl => ?_, ?_⟩
  · rw [Vmm.bound, hk.maxPages]
    exact h.bound_le
  · obtain ⟨i, b, hp⟩ := h.placed l hl
    exact ⟨i, b, hplaced l hl i b hp⟩
  · rw [hsame]
    exact h.nodup

/-- **An allocation** adds pages backed by blocks that were free. -/
theorem cons (h : LiveInv s live) {l : Live} {i b : ℕ} (hpos : 0 < l.kind.pages)
    (haddr : l.addr = pageAddr i) (hg : Gives s i l.kind.pages b s') :
    LiveInv s' (l :: live) := by
  have hlive : ∀ m ∈ live, ∀ j c, PlacedAt s m j c → ∀ k < m.kind.pages,
      (∀ k' < l.kind.pages, j + k ≠ i + k' ∧ Unmirrored (j + k) (i + k')) ∧ True := by
    intro m _ j c hp k hk
    refine ⟨fun k' hk' => ?_, trivial⟩
    obtain ⟨hlt, hfree, -⟩ := hg.page k' hk'
    obtain ⟨htaken, hmirror⟩ := hp.taken h.bound_le hk
    refine ⟨fun heq => ?_, hmirror _ hlt hfree⟩
    rw [heq, hfree] at htaken
    exact Bool.noConfusion htaken
  have hold : LiveInv s' live := h.keeps hg.keeps hlive
  have hbound : s'.bound = s.bound := congrArg UInt32.toNat hg.keeps.maxPages
  have hnew : PlacedAt s' l i b := by
    refine ⟨hpos, haddr, fun k hk => ?_, fun k hk => ?_, hg.frame⟩
    · obtain ⟨hlt, -, htaken⟩ := hg.page k hk
      exact ⟨by rwa [hbound], htaken⟩
    · obtain ⟨hfree, hused, hheld⟩ := hg.block k hk
      exact ⟨by rw [hg.keeps.bound]; exact (Pmm.isFree_iff.mp hfree).1, hused, hheld⟩
  have hblock : ∀ k < l.kind.pages, b + k < 2 ^ 20 := fun k hk =>
    lt_trans (hnew.block k hk).1 hold.sound.bound_lt
  refine ⟨hold.sound, hold.bound_le, ?_, ?_⟩
  · intro m hm
    obtain rfl | hm := List.mem_cons.mp hm
    · exact ⟨i, b, hnew⟩
    · exact hold.placed m hm
  · rw [liveAddrs_cons, List.map_append, List.nodup_append]
    refine ⟨?_, hold.nodup, ?_⟩
    · rw [Live.addrs, List.map_map]
      refine List.Nodup.map_on (fun x hx y hy heq => ?_) List.nodup_range
      rw [List.mem_range] at hx hy
      simp only [Function.comp_apply, hnew.virtToPhys hx, hnew.virtToPhys hy] at heq
      have := blockAddr_inj (hblock x hx) (hblock y hy) heq
      omega
    · -- the blocks of older allocations were in use, those of this one free
      intro p hp q hq heq
      obtain ⟨a, ha, rfl⟩ := List.mem_map.mp hp
      obtain ⟨k, hk, rfl⟩ := mem_addrs.mp ha
      obtain ⟨c, hc, rfl⟩ := List.mem_map.mp hq
      obtain ⟨m, hm, hcm⟩ := mem_liveAddrs.mp hc
      obtain ⟨k', hk', rfl⟩ := mem_addrs.mp hcm
      obtain ⟨j, d, hmp⟩ := h.placed m hm
      have hmp' := hmp.keeps hg.keeps (fun k hk => (hlive m hm j d hmp k hk).1) fun _ _ => trivial
      obtain ⟨hd, hused, -⟩ := hmp.block k' hk'
      rw [hnew.virtToPhys hk, hmp'.virtToPhys hk'] at heq
      have heq := blockAddr_inj (hblock k hk) (lt_trans hd h.sound.bound_lt) heq
      rw [← heq, Pmm.isUsed_eq_false_of_isFree (hg.block k hk).1] at hused
      exact Bool.noConfusion hused

end LiveInv

/-! ### Frees -/

/-- A matching free keeps all pages and blocks but those of the allocation. -/
theorem keeps_free {s : Vmm} {l : Live} {i b : ℕ} (hs : s.paging.Sound) (hb : s.bound ≤ 0x40000)
    (h : PlacedAt s l i b) :
    Keeps (fun a => ∀ k < l.kind.pages, a ≠ i + k ∧ Unmirrored a (i + k))
      (fun c => c < 2 ^ 20 ∧ ∀ k < l.kind.pages, c ≠ b + k) s (l.kind.free s l.addr) := by
  obtain ⟨kind, addr⟩ := l
  obtain rfl : addr = pageAddr i := h.addr
  -- both ways to free a run
  have hrun : ∀ n : UInt32, n.toNat = kind.pages →
      Keeps (fun a => ∀ k < kind.pages, a ≠ i + k ∧ Unmirrored a (i + k))
        (fun c => c < 2 ^ 20 ∧ ∀ k < kind.pages, c ≠ b + k) s
        (vmmFreeContiguous s (pageAddr i) n) := by
    intro n hn
    have hpos : 0 < kind.pages := h.pos
    have hlast : n.toNat - 1 < kind.pages := by omega
    have hpage := (h.page _ hlast).1
    have hblock := (h.block _ hlast).1
    have hbound : s.pmm.bound < 2 ^ 20 := hs.bound_lt
    obtain ⟨e, he, hbase⟩ := h.frame 0 hpos
    rw [← hn]
    exact keeps_vmmFreeContiguous hs (by omega) (by omega) (by omega)
      ((virtToPhys_pageAddr he).trans hbase) fun k hk =>
        (h.block k (show k < kind.pages by omega)).2.2
  cases kind with
  | page =>
      have hi := (h.page 0 Nat.one_pos).1
      exact (keeps_vmmFreePage hs (by omega)).mono (fun a ha => ha 0 Nat.one_pos)
        fun _ _ _ => trivial
  | contiguous n => exact hrun n rfl
  | dma size =>
      rw [LiveKind.free, dmaFree]
      simp only
      split_ifs
      · exact .refl hs
      · exact .refl hs
      · exact .refl hs
      · exact hrun (dmaPages size) rfl

namespace LiveInv

variable {s : Vmm} {live : List Live}

/-- **A matching free** removes an allocation and keeps the others. -/
theorem free (h : LiveInv s live) {l : Live} (hl : l ∈ live) :
    LiveInv (l.kind.free s l.addr) (live.erase l) := by
  have hperm : LiveInv s (l :: live.erase l) := h.perm (List.perm_cons_erase hl)
  have hrest : LiveInv s (live.erase l) :=
    ⟨h.sound, h.bound_le, fun m hm => h.placed m (List.mem_of_mem_erase hm), by
      have := hperm.nodup
      rw [liveAddrs_cons, List.map_append] at this
      exact this.of_append_right⟩
  obtain ⟨i, b, hp⟩ := h.placed l hl
  have hnodup := hperm.nodup
  rw [liveAddrs_cons, List.map_append, List.nodup_append] at hnodup
  -- two live pages of different allocations have different blocks, and so are different pages
  have hne : ∀ m ∈ live.erase l, ∀ j c, PlacedAt s m j c → ∀ k < m.kind.pages,
      ∀ k' < l.kind.pages, c + k ≠ b + k' ∧ j + k ≠ i + k' := by
    intro m hm j c hmp k hk k' hk'
    have hframes := hnodup.2.2 _ (List.mem_map_of_mem (mem_addrs.mpr ⟨k', hk', rfl⟩)) _
      (List.mem_map_of_mem (mem_liveAddrs.mpr ⟨m, hm, mem_addrs.mpr ⟨k, hk, rfl⟩⟩))
    refine ⟨fun heq => hframes ?_, fun heq => hframes ?_⟩
    · rw [hp.virtToPhys hk', hmp.virtToPhys hk, heq]
    · rw [hp.addr, hmp.addr, pageAddr_add, pageAddr_add, heq]
  refine hrest.keeps (keeps_free h.sound h.bound_le hp) fun m hm j c hmp k hk => ⟨?_, ?_⟩
  · intro k' hk'
    have hj := (hmp.page k hk).1
    have hi := (hp.page k' hk').1
    have hbound := h.bound_le
    exact ⟨(hne m hm j c hmp k hk k' hk').2, by omega, by omega, by omega, by omega⟩
  · exact ⟨lt_trans (hmp.block k hk).1 h.sound.bound_lt,
      fun k' hk' => (hne m hm j c hmp k hk k' hk').1⟩

/-- A call that gives nothing keeps the invariant. -/
theorem of_taken (h : LiveInv s live) {s' : Vmm}
    (hk : Keeps (Taken s) (fun b => s.pmm.isUsed b = true) s s') : LiveInv s' live :=
  h.keeps hk fun _ _ _ _ hp k hlt => ⟨hp.taken h.bound_le hlt, (hp.block k hlt).2.1⟩

/-- **An allocation that strands no blocks** keeps the invariant. -/
theorem alloc (h : LiveInv s live) (k : LiveKind) (hk : ¬ k.Strands s) :
    LiveInv (k.alloc s).2 (if (k.alloc s).1 = 0 then live else ⟨k, (k.alloc s).1⟩ :: live) := by
  have hp : s.bound < 2 ^ 20 := by
    have := h.bound_le
    omega
  have hgives : ∀ i b, 0 < k.pages → (k.alloc s).1 = pageAddr i →
      Gives s i k.pages b (k.alloc s).2 →
      LiveInv (k.alloc s).2 (if (k.alloc s).1 = 0 then live else ⟨k, (k.alloc s).1⟩ :: live) := by
    intro i b hpos haddr hg
    have hi := (hg.page 0 hpos).1
    have hbound := h.bound_le
    have hnull : (k.alloc s).1 ≠ 0 := by
      rw [haddr, ne_eq, pageAddr_eq_zero_iff (by omega)]
      omega
    rw [if_neg hnull]
    exact h.cons hpos haddr hg
  have hfails : (k.alloc s).1 = 0 →
      Keeps (Taken s) (fun b => s.pmm.isUsed b = true) s (k.alloc s).2 →
      LiveInv (k.alloc s).2 (if (k.alloc s).1 = 0 then live else ⟨k, (k.alloc s).1⟩ :: live) := by
    intro hnull hkeeps
    rw [if_pos hnull]
    exact h.of_taken hkeeps
  cases k with
  | page =>
      obtain ⟨hnull, hkeeps⟩ | ⟨i, b, -, haddr, hg⟩ := vmmAllocPage_gives h.sound
      · exact hfails hnull (hkeeps.mono (fun _ _ => trivial) fun _ _ _ => trivial)
      · exact hgives i b Nat.one_pos haddr hg
  | contiguous n =>
      by_cases hn : s.maxPages < n
      · have heq : LiveKind.alloc s (.contiguous n) = (0, s) := by
          rw [LiveKind.alloc, vmmAllocContiguous, if_pos (Or.inr hn)]
        rw [heq]
        exact h
      · have hle : n.toNat ≤ 0x40000 := by
          have := h.bound_le
          rw [UInt32.not_lt, UInt32.le_iff_toNat_le] at hn
          exact hn.trans this
        obtain ⟨hnull, hkeeps⟩ | ⟨i, b, hpos, haddr, hg⟩ :=
          vmmAllocContiguous_gives h.sound hp hle
        · exact hfails hnull hkeeps
        · exact hgives i b hpos haddr hg
  | dma size =>
      obtain heq | hstrands | ⟨i, b, hpos, haddr, hg⟩ := dmaAlloc_gives h.sound hp size
      · have heq : LiveKind.alloc s (.dma size) = (0, s) := heq
        rw [heq]
        exact h
      · exact absurd hstrands hk
      · exact hgives i b hpos haddr hg

end LiveInv

section Steps

variable {ok : Vmm → LiveKind → Prop} {boot : Boot} {s t : Vmm} {live : List Live} {a : UInt32}

theorem LiveRun.alloc_some (h : LiveRun ok boot s live) (k : LiveKind) (hok : ok s k)
    (ht : (k.alloc s).2 = t) (ha : (k.alloc s).1 = a) (hne : a ≠ 0) :
    LiveRun ok boot t (⟨k, a⟩ :: live) := by
  have hstep := LiveRun.alloc k hok h
  rwa [ht, ha, if_neg hne] at hstep

theorem LiveRun.alloc_null (h : LiveRun ok boot s live) (k : LiveKind) (hok : ok s k)
    (ht : (k.alloc s).2 = t) (ha : (k.alloc s).1 = 0) : LiveRun ok boot t live := by
  have hstep := LiveRun.alloc k hok h
  rwa [ht, if_pos ha] at hstep

theorem LiveRun.free_to (h : LiveRun ok boot s live) (l : Live) (hl : l ∈ live)
    (ht : l.kind.free s l.addr = t) : LiveRun ok boot t (live.erase l) :=
  ht ▸ h.free l hl

end Steps

theorem bound_smallBoot : (smallBoot 0x130000).kmain.bound ≤ 0x40000 := by
  rw [kmain_smallBoot (by decide)]
  decide +kernel

theorem liveRun_smallBoot {ok : Vmm → LiveKind → Prop} :
    LiveRun ok (smallBoot 0x130000) (smallStart 0x130000) [] := by
  rw [← kmain_smallBoot (by decide)]
  exact .boot

/-- There, all nine free blocks are taken, by runs of two, one and five pages and by a page;
the run of one, whose block lies below the page's, is given back; `dma_alloc` finds that
block and nothing more; the run of two is given back. -/
def strandingSteps : List (Vmm → Vmm) :=
  [fun s => (LiveKind.alloc s (.contiguous 2)).2,
    fun s => (LiveKind.alloc s (.contiguous 1)).2,
    fun s => (LiveKind.alloc s .page).2,
    fun s => (LiveKind.alloc s (.contiguous 5)).2,
    fun s => LiveKind.free s 0xC0002000 (.contiguous 1),
    fun s => (LiveKind.alloc s (.dma 0x1000)).2,
    fun s => LiveKind.free s 0xC0000000 (.contiguous 2)]

/-- The state after `k` of these steps. -/
def strandingState (k : ℕ) : Vmm :=
  (strandingSteps.take k).foldl (fun s step => step s) (smallStart 0x130000)

theorem strandingState_succ (k : ℕ) (step : Vmm → Vmm) (h : strandingSteps[k]? = some step) :
    step (strandingState k) = strandingState (k + 1) := by
  rw [strandingState, strandingState, List.take_add_one, h, List.foldl_append]
  rfl

/-- What the allocations return, and what the last state holds. (One evaluation goes through the
steps once.) -/
theorem strandingState_outcome :
    ((LiveKind.alloc (strandingState 0) (.contiguous 2)).1 = 0xC0000000 ∧
      (LiveKind.alloc (strandingState 1) (.contiguous 1)).1 = 0xC0002000 ∧
      (LiveKind.alloc (strandingState 2) .page).1 = 0xC0003000 ∧
      (LiveKind.alloc (strandingState 3) (.contiguous 5)).1 = 0xC0004000 ∧
      (LiveKind.alloc (strandingState 5) (.dma 0x1000)).1 = 0) ∧
    virtToPhys (strandingState 7).paging 0xC0003000 = blockAddr 298 ∧
      (strandingState 7).pmm.isUsed 298 = false ∧ (strandingState 7).pmm.bound = 304 := by
  decide +kernel

/-- The run of these steps leaves the run of five and the page live. -/
theorem liveRun_stranding :
    LiveRun (fun _ _ => True) (smallBoot 0x130000) (strandingState 7)
      [⟨.contiguous 5, 0xC0004000⟩, ⟨.page, 0xC0003000⟩] := by
  obtain ⟨⟨htwo, hone, hpage, hfive, hdma⟩, -⟩ := strandingState_outcome
  have h0 : LiveRun (fun _ _ => True) (smallBoot 0x130000) (strandingState 0) [] := by
    rw [strandingState, List.take_zero, List.foldl_nil]
    exact liveRun_smallBoot
  have h1 := h0.alloc_some (a := 0xC0000000) (.contiguous 2) trivial
    (strandingState_succ 0 (fun s => (LiveKind.alloc s (.contiguous 2)).2) rfl) htwo (by decide)
  have h2 := h1.alloc_some (a := 0xC0002000) (.contiguous 1) trivial
    (strandingState_succ 1 (fun s => (LiveKind.alloc s (.contiguous 1)).2) rfl) hone (by decide)
  have h3 := h2.alloc_some (a := 0xC0003000) .page trivial
    (strandingState_succ 2 (fun s => (LiveKind.alloc s .page).2) rfl) hpage (by decide)
  have h4 := h3.alloc_some (a := 0xC0004000) (.contiguous 5) trivial
    (strandingState_succ 3 (fun s => (LiveKind.alloc s (.contiguous 5)).2) rfl) hfive (by decide)
  have h5 := h4.free_to ⟨.contiguous 1, 0xC0002000⟩ (by decide)
    (strandingState_succ 4 (fun s => LiveKind.free s 0xC0002000 (.contiguous 1)) rfl)
  have h6 := h5.alloc_null (.dma 0x1000) trivial
    (strandingState_succ 5 (fun s => (LiveKind.alloc s (.dma 0x1000)).2) rfl) hdma
  exact h6.free_to ⟨.contiguous 2, 0xC0000000⟩ (by decide)
    (strandingState_succ 6 (fun s => LiveKind.free s 0xC0000000 (.contiguous 2)) rfl)

end HalOS

import HalOS.Libs.PrintfText
import Mathlib.Data.Nat.Count

/-!
# The Serial Port

`serial_putchar` and `serial_printf` of `drivers/serial.c`. What the line status register says is an
oracle, by the number of its reads. A transmitter that is not empty is answered with a message, which
is printed by `serial_putchar` again; so the calls are nested, and the model bounds how deep.

## Main results

* `busy_putchar`: what is sent for a character if the transmitter is busy for some reads.
* `busy_serial_never_returns`: a transmitter that stays busy is never done with.
-/

namespace HalOS

namespace Serial

open Printf (FloatText printf formatText)

/-- How often the line status has been read, and what has been written to the port. -/
structure Port where
  reads : ℕ
  sent : List UInt8
deriving DecidableEq, Repr

/-- `"Serial buffer overflow!\n"`. -/
def overflowMessage : List UInt8 :=
  [0x53, 0x65, 0x72, 0x69, 0x61, 0x6C, 0x20, 0x62, 0x75, 0x66, 0x66, 0x65, 0x72, 0x20, 0x6F, 0x76,
    0x65, 0x72, 0x66, 0x6C, 0x6F, 0x77, 0x21, 0x0A]

variable (fp : FloatText) (ready : ℕ → Bool)

/-- `serial_putchar`, with calls nested no deeper than this. -/
def serialPutchar : ℕ → UInt8 → Option Port → Option Port
  | 0, _, _ => none
  | depth + 1, c, port => do
      let port ← port
      let isTransmitEmpty := ready port.reads
      let port := { port with reads := port.reads + 1 }
      if isTransmitEmpty then some { port with sent := port.sent ++ [c] }
      else
        match printf fp (serialPutchar depth) overflowMessage [] (some port) with
        | .ok r => r.2
        | .error _ => none

/-- `serial_printf`. -/
def serialPrintf (depth : ℕ) (format : List UInt8) (args : List Printf.VaArg) (port : Port) :
    Except Printf.Fault (ℕ × Option Port) :=
  printf fp (serialPutchar fp ready depth) format args (some port)

variable {fp ready}

/-! ### The message -/

theorem formatText_overflowMessage :
    formatText fp overflowMessage [] = .ok (overflowMessage, []) := rfl

/-- A transmitter that is not empty costs the character, and the message is sent in its place. -/
theorem serialPutchar_busy {depth : ℕ} {c : UInt8} {port : Port} (h : ready port.reads = false) :
    serialPutchar fp ready (depth + 1) c (some port) =
      overflowMessage.foldl (fun port c => serialPutchar fp ready depth c port)
        (some { port with reads := port.reads + 1 }) := by
  have hprintf := Printf.printf_eq fp (serialPutchar fp ready depth) overflowMessage []
    (some { port with reads := port.reads + 1 }) fun r hr => by
      cases formatText_overflowMessage.symm.trans hr
      norm_num [overflowMessage]
  rw [formatText_overflowMessage] at hprintf
  have hfilter : overflowMessage.filter (· ≠ 0) = overflowMessage := by decide
  simp only [serialPutchar, Option.bind_eq_bind, Option.bind_some, h, hprintf, Except.map, hfilter]
  rfl

theorem serialPutchar_ready {depth : ℕ} {c : UInt8} {port : Port} (h : ready port.reads = true) :
    serialPutchar fp ready (depth + 1) c (some port) =
      some ⟨port.reads + 1, port.sent ++ [c]⟩ := by
  simp [serialPutchar, h]

theorem serialPutchar_none (depth : ℕ) (c : UInt8) :
    serialPutchar fp ready depth c none = none := by
  cases depth <;> rfl

/-- A text is sent as it is if the transmitter is empty from now on. -/
theorem foldl_ready {depth : ℕ} (text : List UInt8) {port : Port}
    (h : ∀ n, port.reads ≤ n → ready n = true) :
    text.foldl (fun port c => serialPutchar fp ready (depth + 1) c port) (some port) =
      some ⟨port.reads + text.length, port.sent ++ text⟩ := by
  induction text generalizing port with
  | nil => simp
  | cons c text ih =>
      rw [List.foldl_cons, serialPutchar_ready (h _ (Nat.le_refl _)),
        ih fun n hn => h n (Nat.le_of_succ_le hn)]
      simp [Nat.add_comm, Nat.add_left_comm]

/-! ### Busy transmitters -/

/-- What is sent for a character if the next so many reads find the transmitter busy. -/
def busyText (c : UInt8) (k : ℕ) : List UInt8 :=
  if k = 0 then [c]
  else overflowMessage ++ (List.replicate (k - 1) overflowMessage.tail).flatten

theorem foldl_none (depth : ℕ) (text : List UInt8) :
    text.foldl (fun port c => serialPutchar fp ready depth c port) none = none := by
  induction text with
  | nil => rfl
  | cons c text ih => rw [List.foldl_cons, serialPutchar_none, ih]

theorem length_overflowMessage : overflowMessage.length = 24 := rfl

/-- One busy read more. -/
theorem busyText_succ (c : UInt8) (k : ℕ) :
    busyText 0x53 k ++ overflowMessage.tail = busyText c (k + 1) := by
  cases k with
  | zero => rfl
  | succ k =>
      rw [busyText, busyText, if_neg k.succ_ne_zero, if_neg (k + 1).succ_ne_zero,
        List.append_assoc, Nat.add_sub_cancel, Nat.add_sub_cancel, List.replicate_succ',
        List.flatten_append, List.flatten_singleton]

/-- A character, if the transmitter is busy for some reads and empty from then on. The character is
sent if there are no such reads; otherwise the message is sent in its place, and once more without its
first character for each further read. -/
theorem busy_putchar (fp : FloatText) {ready : ℕ → Bool} {k depth : ℕ} (c : UInt8) {port : Port}
    (hbusy : ∀ n < k, ready (port.reads + n) = false)
    (hready : ∀ n, port.reads + k ≤ n → ready n = true) (hdepth : k < depth) :
    serialPutchar fp ready depth c (some port) =
      some ⟨port.reads + k + (busyText c k).length, port.sent ++ busyText c k⟩ := by
  induction k generalizing c depth port with
  | zero =>
      obtain ⟨depth, rfl⟩ : ∃ d, depth = d + 1 := ⟨depth - 1, by omega⟩
      exact serialPutchar_ready (hready _ (Nat.le_refl _))
  | succ k ih =>
      obtain ⟨depth, rfl⟩ : ∃ d, depth = d + 2 := ⟨depth - 2, by omega⟩
      have hfirst : serialPutchar fp ready (depth + 1) 0x53 (some ⟨port.reads + 1, port.sent⟩) =
          some ⟨port.reads + 1 + k + (busyText 0x53 k).length, port.sent ++ busyText 0x53 k⟩ :=
        ih 0x53
          (fun n hn => by
            have h := hbusy (n + 1) (by omega)
            rwa [← Nat.add_assoc, Nat.add_right_comm] at h)
          (fun n hn => hready n (by simp only at hn; omega)) (by omega)
      have hsplit : overflowMessage = 0x53 :: overflowMessage.tail := rfl
      rw [serialPutchar_busy (hbusy 0 k.succ_pos), hsplit, List.foldl_cons, hfirst,
        foldl_ready _ fun n hn => hready n (by simp only at hn; omega), ← busyText_succ c k]
      simp only [List.length_append, List.append_assoc, Option.some.injEq, Port.mk.injEq, and_true]
      omega

/-- Two busy reads. -/
theorem busy_putchar_twice :
    serialPutchar Printf.noFloats (fun n => 2 ≤ n) 3 0x41 (some ⟨0, []⟩) =
      some ⟨49, overflowMessage ++ overflowMessage.tail⟩ :=
  @busy_putchar Printf.noFloats (fun n => 2 ≤ n) 2 3 0x41 ⟨0, []⟩
    (fun n hn => by simpa using hn) (fun n hn => by simpa using hn) (by norm_num)

/-- A transmitter that stays busy is never done with, however deep the calls are nested. -/
theorem busy_serial_never_returns (fp : FloatText) {ready : ℕ → Bool} (depth : ℕ) (c : UInt8)
    {port : Port} (h : ∀ n, port.reads ≤ n → ready n = false) :
    serialPutchar fp ready depth c (some port) = none := by
  induction depth generalizing c port with
  | zero => rfl
  | succ depth ih =>
      rw [serialPutchar_busy (h _ (Nat.le_refl _)), show overflowMessage =
        0x53 :: overflowMessage.tail from rfl, List.foldl_cons,
        ih _ fun n hn => h n (Nat.le_of_succ_le hn), foldl_none]

/-- A hundred calls are not enough. -/
theorem busy_serial_never_returns_hundred :
    serialPutchar Printf.noFloats (fun _ => false) 100 0x41 (some ⟨0, []⟩) = none :=
  busy_serial_never_returns Printf.noFloats 100 0x41 fun _ _ => rfl

/-! ### The cost of a busy read -/

/-- How many of the first reads find the transmitter busy. -/
def busyReads (ready : ℕ → Bool) (n : ℕ) : ℕ := Nat.count (fun i => ready i = false) n

/-- From one state of the port to another, so many characters are sent and 23 more for each busy
read. -/
structure Costs (ready : ℕ → Bool) (port port' : Port) (n : ℕ) : Prop where
  busy_le : busyReads ready port.reads ≤ busyReads ready port'.reads
  sent : port'.sent.length + 23 * busyReads ready port.reads =
    port.sent.length + n + 23 * busyReads ready port'.reads
  reads : port'.reads + 24 * busyReads ready port.reads =
    port.reads + n + 24 * busyReads ready port'.reads

theorem Costs.refl (ready : ℕ → Bool) (port : Port) : Costs ready port port 0 :=
  ⟨Nat.le_refl _, rfl, rfl⟩

theorem Costs.trans {ready : ℕ → Bool} {port port' port'' : Port} {n n' : ℕ}
    (h : Costs ready port port' n) (h' : Costs ready port' port'' n') :
    Costs ready port port'' (n + n') := by
  refine ⟨h.busy_le.trans h'.busy_le, ?_, ?_⟩
  · have := h.sent
    have := h'.sent
    omega
  · have := h.reads
    have := h'.reads
    omega

theorem busyReads_succ (ready : ℕ → Bool) (n : ℕ) :
    busyReads ready (n + 1) = busyReads ready n + if ready n = false then 1 else 0 :=
  Nat.count_succ _ _

theorem Costs.foldl {ready : ℕ → Bool} {putchar : UInt8 → Option Port → Option Port}
    (hnone : ∀ c, putchar c none = none)
    (hstep : ∀ c port port', putchar c (some port) = some port' → Costs ready port port' 1)
    (text : List UInt8) {port port' : Port}
    (h : text.foldl (fun port c => putchar c port) (some port) = some port') :
    Costs ready port port' text.length := by
  induction text generalizing port with
  | nil =>
      cases h
      exact Costs.refl ready _
  | cons c text ih =>
      rw [List.foldl_cons] at h
      cases hc : putchar c (some port) with
      | none =>
          have hfold : ∀ text : List UInt8,
              text.foldl (fun port c => putchar c port) none = none := by
            intro text
            induction text with
            | nil => rfl
            | cons c text ih => rw [List.foldl_cons, hnone, ih]
          rw [hc, hfold] at h
          cases h
      | some next =>
          rw [hc] at h
          rw [List.length_cons, Nat.add_comm]
          exact (hstep c port next hc).trans (ih h)

theorem serialPutchar_costs {depth : ℕ} {c : UInt8} {port port' : Port}
    (h : serialPutchar fp ready depth c (some port) = some port') : Costs ready port port' 1 := by
  induction depth generalizing c port port' with
  | zero => cases h
  | succ depth ih =>
      cases hready : ready port.reads with
      | true =>
          rw [serialPutchar_ready hready] at h
          cases h
          have hcount := busyReads_succ ready port.reads
          rw [hready] at hcount
          constructor <;> simp [hcount]
      | false =>
          rw [serialPutchar_busy hready] at h
          have hcount := busyReads_succ ready port.reads
          rw [hready, if_pos rfl] at hcount
          obtain ⟨hle, hsent, hreads⟩ := Costs.foldl (serialPutchar_none depth)
            (fun c port port' => ih) overflowMessage h
          simp only [hcount, length_overflowMessage] at hle hsent hreads
          exact ⟨by omega, by omega, by omega⟩

/-- Whatever the transmitter does while a text is printed: each read that finds it busy costs one
character of what is being sent, and the 24 characters of the message are sent for it; every other
read sends one character. -/
theorem busy_costs (fp : FloatText) {ready : ℕ → Bool} {depth len : ℕ} {format : List UInt8}
    {args : List Printf.VaArg} {port port' : Port} {r : List UInt8 × List Printf.VaArg}
    (hr : formatText fp format args = .ok r) (hlen : r.1.length < 2 ^ 32)
    (h : serialPrintf fp ready depth format args port = .ok (len, some port')) :
    ∃ busy, busy + busyReads ready port.reads = busyReads ready port'.reads ∧
      port'.sent.length = port.sent.length + (r.1.filter (· ≠ 0)).length + 23 * busy ∧
      port'.reads = port.reads + (r.1.filter (· ≠ 0)).length + 24 * busy := by
  rw [serialPrintf, Printf.printf_eq fp _ format args _ fun r' hr' => by
    cases hr.symm.trans hr'
    exact hlen, hr] at h
  simp only [Except.map, Except.ok.injEq, Prod.mk.injEq] at h
  obtain ⟨hle, hsent, hreads⟩ := Costs.foldl (serialPutchar_none depth)
    (fun c port port' => serialPutchar_costs) _ h.2
  exact ⟨busyReads ready port'.reads - busyReads ready port.reads, by omega, by omega, by omega⟩

/-- `serial_printf("A")`, and the transmitter is busy for the first read. -/
theorem busy_costs_once :
    ∃ busy, busy + busyReads (fun n => 1 ≤ n) 0 = busyReads (fun n => 1 ≤ n) 25 ∧
      overflowMessage.length = 0 + 1 + 23 * busy ∧ 25 = 0 + 1 + 24 * busy :=
  have htext : formatText Printf.noFloats [0x41] [] = .ok ([0x41], []) := rfl
  have hrun : serialPrintf Printf.noFloats (fun n => 1 ≤ n) 2 [0x41] [] ⟨0, []⟩ =
      .ok (1, some ⟨25, overflowMessage⟩) := rfl
  busy_costs Printf.noFloats htext (by norm_num) hrun

end Serial

end HalOS

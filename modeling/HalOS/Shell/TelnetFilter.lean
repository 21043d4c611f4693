import HalOS.Shell.Telnet

/-!
# Telnet Commands

`telnet_filter` of `shell/shell.c` takes the commands out of what `telnet_command` has received. It
is called for each part of the stream by itself, and knows nothing of the part before.

A stream is a list of items here, each of which has an encoding and the data that it stands for.

## Main results

* `telnetFilter_eq`: the filter goes from byte to byte with one of five states.
* `deliversData_iff`: which streams come out right however they are cut, and which parts of a
  stream do if they are cut between two items.
-/

namespace HalOS

abbrev telnetSb : UInt8 := 0xFA
abbrev telnetSe : UInt8 := 0xF0

/-! ### The filter -/

/-- The loop that skips a subnegotiation. -/
def skipToIac (data : List UInt8) (i : ℕ) : ℕ :=
  i + ((data.drop i).takeWhile (· ≠ telnetIac)).length

/-- The loop of `telnet_filter`. -/
def telnetFilterLoop (data : List UInt8) (outsz : ℕ) : ℕ → ℕ → List UInt8 → List UInt8
  | 0, _, out => out
  | fuel + 1, i, out =>
      if i < data.length ∧ out.length < outsz - 1 then
        if data.getD i 0 = telnetIac then
          if i + 1 < data.length then
            let cmd := data.getD (i + 1) 0
            if cmd = telnetIac then
              telnetFilterLoop data outsz fuel (i + 2) (out ++ [telnetIac])
            else if cmd = telnetSb then
              let i := skipToIac data (i + 2)
              if i + 1 < data.length ∧ data.getD (i + 1) 0 = telnetSe then
                telnetFilterLoop data outsz fuel (i + 2) out
              else telnetFilterLoop data outsz fuel i out
            else telnetFilterLoop data outsz fuel (i + 3) out
          else telnetFilterLoop data outsz fuel (i + 1) out
        else telnetFilterLoop data outsz fuel (i + 1) (out ++ [data.getD i 0])
      else out

/-- `telnet_filter`: what it puts into `out`, which has `outsz` bytes. -/
def telnetFilter (data : List UInt8) (outsz : ℕ) : List UInt8 :=
  telnetFilterLoop data outsz data.length 0 []

/-! ### Byte by byte -/

/-- What the filter remembers between two bytes. -/
inductive FilterState
  | text | command | option | sub | subIac
deriving DecidableEq

/-- The state after the byte behind an IAC. -/
def afterIac (b : UInt8) : FilterState :=
  if b = telnetIac then .text else if b = telnetSb then .sub else .option

namespace FilterState

def next : FilterState → UInt8 → FilterState
  | text, b => if b = telnetIac then command else text
  | command, b => afterIac b
  | option, _ => text
  | sub, b => if b = telnetIac then subIac else sub
  | subIac, b => if b = telnetSe then text else afterIac b

def emit : FilterState → UInt8 → List UInt8
  | text, b => if b = telnetIac then [] else [b]
  | command, b => if b = telnetIac then [telnetIac] else []
  | option, _ => []
  | sub, _ => []
  | subIac, b => if b = telnetIac then [telnetIac] else []

/-- The state after these bytes. -/
def run (s : FilterState) (bytes : List UInt8) : FilterState := bytes.foldl next s

/-- What is put out for these bytes. -/
def output : FilterState → List UInt8 → List UInt8
  | _, [] => []
  | s, b :: bytes => s.emit b ++ output (s.next b) bytes

@[simp] theorem output_nil (s : FilterState) : s.output [] = [] := rfl

theorem output_cons (s : FilterState) (b : UInt8) (bytes : List UInt8) :
    s.output (b :: bytes) = s.emit b ++ (s.next b).output bytes := rfl

@[simp] theorem run_cons (s : FilterState) (b : UInt8) (bytes : List UInt8) :
    s.run (b :: bytes) = (s.next b).run bytes := rfl

theorem run_append (s : FilterState) (as bs : List UInt8) :
    s.run (as ++ bs) = (s.run as).run bs := List.foldl_append

theorem output_append (s : FilterState) (as bs : List UInt8) :
    s.output (as ++ bs) = s.output as ++ (s.run as).output bs := by
  induction as generalizing s with
  | nil => rfl
  | cons a as ih => rw [List.cons_append, output_cons, output_cons, ih, List.append_assoc, run_cons]

/-- Bytes in front of the next IAC of a subnegotiation. -/
theorem output_sub (bytes : List UInt8) :
    sub.output bytes = sub.output (bytes.dropWhile (· ≠ telnetIac)) := by
  induction bytes with
  | nil => rfl
  | cons b bytes ih =>
      by_cases hb : b = telnetIac
      · rw [List.dropWhile_cons_of_neg (by simpa using hb)]
      · rw [List.dropWhile_cons_of_pos (by simpa using hb), ← ih, output_cons, next, if_neg hb]
        rfl

/-- Behind its first IAC a subnegotiation is over, and the IAC may begin something else. -/
theorem output_subIac {b : UInt8} (hb : b ≠ telnetSe) (bytes : List UInt8) :
    subIac.output (b :: bytes) = text.output (telnetIac :: b :: bytes) := by
  have hnext : subIac.next b = command.next b := if_neg hb
  rw [output_cons, hnext]
  rfl

/-- The byte behind a command is skipped. -/
theorem output_option (bytes : List UInt8) : option.output bytes = text.output (bytes.drop 1) := by
  cases bytes with
  | nil => rfl
  | cons b bytes => rfl

end FilterState

open FilterState

theorem drop_skipToIac (data : List UInt8) (i : ℕ) :
    data.drop (skipToIac data i) = (data.drop i).dropWhile (· ≠ telnetIac) := by
  rw [skipToIac, ← List.drop_drop]
  generalize data.drop i = rest
  calc
    _ = (rest.takeWhile (· ≠ telnetIac) ++ rest.dropWhile (· ≠ telnetIac)).drop
          (rest.takeWhile (· ≠ telnetIac)).length := by rw [List.takeWhile_append_dropWhile]
    _ = _ := List.drop_left

/-- What is left of a list begins with its next element. -/
theorem drop_eq_getD_cons {data : List UInt8} {i : ℕ} (h : i < data.length) :
    data.drop i = data.getD i 0 :: data.drop (i + 1) := by
  rw [List.drop_eq_getElem_cons h, List.getD_eq_getElem?_getD, List.getElem?_eq_getElem h]
  rfl

/-- The loop stops at an IAC. -/
theorem getD_skipToIac {data : List UInt8} {i : ℕ} (h : skipToIac data i < data.length) :
    data.getD (skipToIac data i) 0 = telnetIac := by
  have hdrop := drop_skipToIac data i
  rw [drop_eq_getD_cons h] at hdrop
  have hhead := List.head?_dropWhile_not (· ≠ telnetIac) (data.drop i)
  rw [← hdrop] at hhead
  simpa using hhead

/-- The machine is past the data of the subnegotiation where the loop is. -/
theorem output_sub_drop (data : List UInt8) (i : ℕ) :
    sub.output (data.drop i) = sub.output (data.drop (skipToIac data i)) := by
  rw [output_sub, drop_skipToIac]

/-- A subnegotiation is over at its first IAC, and unless SE follows, the IAC begins something
else. -/
theorem output_sub_skipToIac (data : List UInt8) (i : ℕ) :
    sub.output (data.drop (skipToIac data i)) =
      if skipToIac data i + 1 < data.length ∧ data.getD (skipToIac data i + 1) 0 = telnetSe then
        text.output (data.drop (skipToIac data i + 2))
      else text.output (data.drop (skipToIac data i)) := by
  by_cases hend : skipToIac data i < data.length
  · rw [drop_eq_getD_cons hend, getD_skipToIac hend]
    by_cases hnext : skipToIac data i + 1 < data.length
    · rw [drop_eq_getD_cons hnext]
      by_cases hse : data.getD (skipToIac data i + 1) 0 = telnetSe
      · rw [if_pos ⟨hnext, hse⟩, hse]
        rfl
      · rw [if_neg fun h => hse h.2, ← output_subIac hse]
        rfl
    · rw [if_neg fun h => hnext h.1,
        List.drop_of_length_le (by omega : data.length ≤ skipToIac data i + 1)]
      rfl
  · rw [if_neg (by omega), List.drop_of_length_le (by omega)]
    rfl

theorem telnetFilterLoop_eq (data : List UInt8) (outsz fuel i : ℕ) (out : List UInt8)
    (hfuel : data.length ≤ i + fuel) (hroom : out.length + (data.length - i) < outsz) :
    telnetFilterLoop data outsz fuel i out = out ++ text.output (data.drop i) := by
  induction fuel generalizing i out with
  | zero => rw [telnetFilterLoop, List.drop_of_length_le (by omega), output_nil, List.append_nil]
  | succ fuel ih =>
      rw [telnetFilterLoop]
      by_cases hi : i < data.length
      · rw [if_pos ⟨hi, by omega⟩, drop_eq_getD_cons hi, output_cons]
        by_cases hiac : data.getD i 0 = telnetIac
        · rw [if_pos hiac, hiac]
          by_cases hnext : i + 1 < data.length
          · rw [if_pos hnext, drop_eq_getD_cons hnext]
            by_cases hcmd : data.getD (i + 1) 0 = telnetIac
            · rw [if_pos hcmd, hcmd, ih _ _ (by omega) (by rw [List.length_append]; simp; omega),
                List.append_assoc]
              rfl
            rw [if_neg hcmd]
            by_cases hsb : data.getD (i + 1) 0 = telnetSb
            · have hle : i + 2 ≤ skipToIac data (i + 2) := Nat.le_add_right _ _
              have hsub : (text.next telnetIac).output (data.getD (i + 1) 0 :: data.drop (i + 2)) =
                  sub.output (data.drop (skipToIac data (i + 2))) := by
                rw [← output_sub_drop, hsb]
                rfl
              rw [if_pos hsb, hsub, output_sub_skipToIac]
              dsimp only
              split_ifs
              · exact ih _ _ (by omega) (by omega)
              · exact ih _ _ (by omega) (by omega)
            · have hoption : (text.next telnetIac).next (data.getD (i + 1) 0) = .option :=
                (if_neg hcmd).trans (if_neg hsb)
              have hemit : (text.next telnetIac).emit (data.getD (i + 1) 0) = [] := if_neg hcmd
              rw [if_neg hsb, ih _ _ (by omega) (by omega), output_cons, hoption, hemit,
                output_option, List.drop_drop]
              rfl
          · rw [if_neg hnext, ih _ _ (by omega) (by omega),
              List.drop_of_length_le (by omega : data.length ≤ i + 1)]
            rfl
        · rw [if_neg hiac, ih _ _ (by omega) (by rw [List.length_append]; simp; omega)]
          simp only [emit, next, if_neg hiac, List.append_assoc]
      · rw [if_neg fun h => hi h.1, List.drop_of_length_le (by omega), output_nil, List.append_nil]

/-- If there is room for the data, the filter is the machine. -/
theorem telnetFilter_eq {data : List UInt8} {outsz : ℕ} (h : data.length < outsz) :
    telnetFilter data outsz = text.output data := by
  rw [telnetFilter, telnetFilterLoop_eq data outsz _ 0 [] (by omega)
    (by rw [List.length_nil]; omega)]
  rfl

/-! ### Streams -/

/-- What a stream is made of: a byte of data, the data byte 255, a command of two bytes, one of
three bytes (`WILL`, `WONT`, `DO` and `DONT`), and a subnegotiation. -/
inductive TelnetItem
  | data (b : UInt8) (h : b ≠ telnetIac)
  | escaped
  | command (c : UInt8) (h : telnetSe < c ∧ c < telnetSb)
  | negotiation (verb opt : UInt8) (h : telnetWill ≤ verb ∧ verb < telnetIac)
  | subnegotiation (payload : List UInt8)

/-- In a subnegotiation, too, IAC is sent twice. -/
def escapeIac (b : UInt8) : List UInt8 := if b = telnetIac then [telnetIac, telnetIac] else [b]

namespace TelnetItem

/-- How the item is sent. -/
def encode : TelnetItem → List UInt8
  | data b _ => [b]
  | escaped => [telnetIac, telnetIac]
  | command c _ => [telnetIac, c]
  | negotiation verb opt _ => [telnetIac, verb, opt]
  | subnegotiation payload =>
      telnetIac :: telnetSb :: (payload.flatMap escapeIac ++ [telnetIac, telnetSe])

/-- The data that the item stands for. -/
def content : TelnetItem → List UInt8
  | data b _ => [b]
  | escaped => [telnetIac]
  | command _ _ => []
  | negotiation _ _ _ => []
  | subnegotiation _ => []

def IsData (item : TelnetItem) : Prop := ∃ b h, item = data b h

def IsCommand (item : TelnetItem) : Prop := ∃ c h, item = command c h

/-- Within a subnegotiation there is nothing to escape. -/
def Unescaped (item : TelnetItem) : Prop :=
  ∀ payload, item = subnegotiation payload → telnetIac ∉ payload

end TelnetItem

open TelnetItem

/-- What is sent. -/
def encodeItems (items : List TelnetItem) : List UInt8 := items.flatMap encode

/-- The data of the stream. -/
def contents (items : List TelnetItem) : List UInt8 := items.flatMap content

/-- The filter is called for one part of the stream after the other, with a byte more for its
output than the buffer of the connection has. -/
def filteredParts (parts : List (List UInt8)) : List UInt8 :=
  parts.flatMap fun part => telnetFilter part (recvBufferSize + 1)

/-- However the stream is cut into parts that fit into the buffer, its data comes out. -/
def DeliversData (items : List TelnetItem) : Prop :=
  ∀ parts : List (List UInt8), parts.flatten = encodeItems items →
    (∀ part ∈ parts, part.length ≤ recvBufferSize) → filteredParts parts = contents items

/-! ### Every cut -/

theorem filteredParts_singletons (bytes : List UInt8) :
    filteredParts (bytes.map fun b => [b]) = bytes.filter (· ≠ telnetIac) := by
  induction bytes with
  | nil => rfl
  | cons b bytes ih =>
      have hb : telnetFilter [b] (recvBufferSize + 1) = if b = telnetIac then [] else [b] := by
        rw [telnetFilter_eq (by rw [List.length_singleton]; decide), output_cons, output_nil,
          List.append_nil]
        rfl
      rw [filteredParts] at ih ⊢
      rw [List.map_cons, List.flatMap_cons, ih, hb, List.filter_cons]
      by_cases hiac : b = telnetIac <;> simp [hiac]

theorem command_ne_iac {c : UInt8} (h : telnetSe < c ∧ c < telnetSb) : ¬ c = telnetIac := by
  rintro rfl
  exact absurd h.2 (by decide)

theorem verb_ne_iac {verb : UInt8} (h : telnetWill ≤ verb ∧ verb < telnetIac) :
    ¬ verb = telnetIac := by
  rintro rfl
  exact absurd h.2 (by decide)

theorem verb_ne_sb {verb : UInt8} (h : telnetWill ≤ verb ∧ verb < telnetIac) :
    ¬ verb = telnetSb := by
  rintro rfl
  exact absurd h.1 (by decide)

/-- Of the bytes other than IAC an item has at least as many as it has data, and only data has as
many. -/
theorem TelnetItem.length_content {item : TelnetItem} (h : item ≠ escaped) :
    item.IsData ∧ item.content.length = (item.encode.filter (· ≠ telnetIac)).length ∨
      item.content.length < (item.encode.filter (· ≠ telnetIac)).length := by
  have hkept {b : UInt8} {bytes : List UInt8} (hmem : b ∈ bytes) (hb : b ≠ telnetIac) :
      0 < (bytes.filter (· ≠ telnetIac)).length :=
    List.length_pos_of_mem (List.mem_filter.mpr ⟨hmem, by simpa using hb⟩)
  cases item with
  | data b hb => exact .inl ⟨⟨b, hb, rfl⟩, by simp [encode, content, hb]⟩
  | escaped => exact absurd rfl h
  | command c hc => exact .inr (hkept (b := c) (by simp [encode]) (command_ne_iac hc))
  | negotiation verb opt hverb =>
      exact .inr (hkept (b := verb) (by simp [encode]) (verb_ne_iac hverb))
  | subnegotiation payload =>
      exact .inr (hkept (b := telnetSb) (by simp [encode]) (by decide))

theorem length_contents (items : List TelnetItem) (h : ∀ item ∈ items, item ≠ escaped) :
    (contents items).length ≤ ((encodeItems items).filter (· ≠ telnetIac)).length ∧
      ((contents items).length = ((encodeItems items).filter (· ≠ telnetIac)).length →
        ∀ item ∈ items, item.IsData) := by
  induction items with
  | nil => exact ⟨Nat.le_refl 0, fun _ => List.forall_mem_nil _⟩
  | cons item items ih =>
      obtain ⟨hle, heq⟩ := ih fun item hitem => h item (List.mem_cons_of_mem _ hitem)
      rw [contents, encodeItems] at hle heq ⊢
      rw [List.flatMap_cons, List.flatMap_cons, List.filter_append, List.length_append,
        List.length_append]
      obtain ⟨hdata, hlength⟩ | hlength := length_content (h item List.mem_cons_self)
      · exact ⟨by omega, fun hall => List.forall_mem_cons.mpr ⟨hdata, heq (by omega)⟩⟩
      · exact ⟨by omega, fun hall => by omega⟩

/-- Bytes that are no commands are let through. -/
theorem output_text {bytes : List UInt8} (h : telnetIac ∉ bytes) : text.output bytes = bytes := by
  induction bytes with
  | nil => rfl
  | cons b bytes ih =>
      have hb : ¬ b = telnetIac := fun hb => h (hb ▸ List.mem_cons_self)
      rw [output_cons, next, emit, if_neg hb, if_neg hb,
        ih fun hmem => h (List.mem_cons_of_mem _ hmem)]
      rfl

theorem deliversData_iff_isData (items : List TelnetItem) :
    DeliversData items ↔ ∀ item ∈ items, item.IsData := by
  constructor
  · intro h
    have hfilter : (encodeItems items).filter (· ≠ telnetIac) = contents items := by
      rw [← filteredParts_singletons]
      refine h _ ?_ ?_
      · induction encodeItems items with
        | nil => rfl
        | cons b bytes ih => rw [List.map_cons, List.flatten_cons, ih, List.singleton_append]
      · intro part hpart
        obtain ⟨b, -, rfl⟩ := List.mem_map.mp hpart
        exact (by decide : 1 ≤ recvBufferSize)
    have hescaped : ∀ item ∈ items, item ≠ escaped := by
      rintro item hitem rfl
      have hmem : telnetIac ∈ contents items :=
        List.mem_flatMap.mpr ⟨escaped, hitem, List.mem_singleton_self _⟩
      rw [← hfilter] at hmem
      simpa using (List.mem_filter.mp hmem).2
    exact (length_contents items hescaped).2 (by rw [hfilter])
  · intro h parts hparts hsizes
    have hitems : encodeItems items = contents items := by
      refine List.flatMap_congr fun item hitem => ?_
      obtain ⟨b, hb, rfl⟩ := h item hitem
      rfl
    have hiac : telnetIac ∉ parts.flatten := by
      rw [hparts, hitems]
      intro hmem
      obtain ⟨item, hitem, hcontent⟩ := List.mem_flatMap.mp hmem
      obtain ⟨b, hb, rfl⟩ := h item hitem
      exact hb (List.mem_singleton.mp hcontent).symm
    have hpart : ∀ part ∈ parts, telnetFilter part (recvBufferSize + 1) = part := by
      intro part hpart
      rw [telnetFilter_eq (Nat.lt_succ_of_le (hsizes part hpart))]
      exact output_text fun hmem => hiac (List.mem_flatten.mpr ⟨part, hpart, hmem⟩)
    rw [filteredParts, List.flatMap_congr hpart, List.flatMap_id', hparts, hitems]

/-! ### Cuts between items -/

/-- Nothing comes out of a subnegotiation without an IAC. -/
theorem output_unescaped {payload : List UInt8} (h : telnetIac ∉ payload) :
    payload.flatMap escapeIac = payload ∧ sub.output payload = [] ∧ sub.run payload = sub := by
  induction payload with
  | nil => exact ⟨rfl, rfl, rfl⟩
  | cons b payload ih =>
      have hb : ¬ b = telnetIac := fun hb => h (hb ▸ List.mem_cons_self)
      obtain ⟨hescape, houtput, hrun⟩ := ih fun hmem => h (List.mem_cons_of_mem _ hmem)
      rw [List.flatMap_cons, hescape, escapeIac, if_neg hb, output_cons, run_cons, next, if_neg hb,
        houtput, hrun]
      exact ⟨rfl, rfl, rfl⟩

/-- An IAC that is escaped in a subnegotiation comes out. -/
theorem output_escaped_ne_nil {payload : List UInt8} (h : telnetIac ∈ payload)
    (rest : List UInt8) : sub.output (payload.flatMap escapeIac ++ rest) ≠ [] := by
  induction payload with
  | nil => exact absurd h List.not_mem_nil
  | cons b payload ih =>
      rw [List.flatMap_cons, List.append_assoc]
      by_cases hb : b = telnetIac
      · rw [escapeIac, if_pos hb]
        exact List.cons_ne_nil _ _
      · rw [escapeIac, if_neg hb, List.singleton_append, output_cons, next, if_neg hb]
        exact ih ((List.mem_cons.mp h).resolve_left fun hiac => hb hiac.symm)

/-- What comes out of an item that is read to its end. -/
theorem output_encode {item : TelnetItem} (h : item.Unescaped) :
    text.output item.encode = item.content := by
  cases item with
  | data b hb => exact (List.append_nil _).trans (if_neg hb)
  | escaped => rfl
  | command c hc =>
      have hemit : command.emit c = [] := if_neg (command_ne_iac hc)
      exact congrArg (· ++ []) hemit
  | negotiation verb opt hverb =>
      have hemit : command.emit verb = [] := if_neg (verb_ne_iac hverb)
      have hnext : command.next verb = .option :=
        (if_neg (verb_ne_iac hverb)).trans (if_neg (verb_ne_sb hverb))
      have houtput : text.output [telnetIac, verb, opt] =
          command.emit verb ++ (command.next verb).output [opt] := rfl
      rw [encode, houtput, hemit, hnext]
      rfl
  | subnegotiation payload =>
      obtain ⟨hescape, houtput, hrun⟩ := output_unescaped (h payload rfl)
      have hencode : text.output (TelnetItem.subnegotiation payload).encode =
          sub.output (payload.flatMap escapeIac ++ [telnetIac, telnetSe]) := rfl
      rw [hencode, hescape, output_append, houtput, hrun]
      rfl

/-- Only behind a command of two bytes the filter is not ready for the next item. -/
theorem run_encode {item : TelnetItem} (h : item.Unescaped) (hcommand : ¬ item.IsCommand) :
    text.run item.encode = text := by
  cases item with
  | data b hb => exact if_neg hb
  | escaped => rfl
  | command c hc => exact absurd ⟨c, hc, rfl⟩ hcommand
  | negotiation verb opt hverb =>
      have hnext : command.next verb = .option :=
        (if_neg (verb_ne_iac hverb)).trans (if_neg (verb_ne_sb hverb))
      exact congrArg (fun s => FilterState.next s opt) hnext
  | subnegotiation payload =>
      obtain ⟨hescape, -, hrun⟩ := output_unescaped (h payload rfl)
      have hencode : text.run (TelnetItem.subnegotiation payload).encode =
          sub.run (payload.flatMap escapeIac ++ [telnetIac, telnetSe]) := rfl
      rw [hencode, hescape, run_append, hrun]
      rfl

/-- The filter skips the byte behind a command of two bytes. -/
theorem output_option_encode (item : TelnetItem) :
    FilterState.option.output item.encode ≠ item.content := by
  rw [output_option]
  cases item with
  | data b hb => exact (List.cons_ne_nil b []).symm
  | escaped => exact (List.cons_ne_nil telnetIac []).symm
  | command c hc =>
      have hemit : text.emit c = [c] := if_neg (command_ne_iac hc)
      rw [encode, List.drop_one, List.tail_cons, output_cons, hemit]
      exact List.cons_ne_nil _ _
  | negotiation verb opt hverb =>
      have hemit : text.emit verb = [verb] := if_neg (verb_ne_iac hverb)
      rw [encode, List.drop_one, List.tail_cons, output_cons, hemit]
      exact List.cons_ne_nil _ _
  | subnegotiation payload => exact List.cons_ne_nil telnetSb _

/-- A part of the stream that is right: no subnegotiation has an IAC to escape, and a command of two
bytes is the last item. -/
def InPlace (part : List TelnetItem) : Prop :=
  (∀ item ∈ part, item.Unescaped) ∧ ∀ item ∈ part.dropLast, ¬ item.IsCommand

theorem inPlace_cons {item : TelnetItem} {part : List TelnetItem} :
    InPlace (item :: part) ↔ item.Unescaped ∧ (item.IsCommand → part = []) ∧ InPlace part := by
  rw [InPlace, InPlace, List.forall_mem_cons, and_assoc, and_congr_right_iff]
  intro _
  cases part with
  | nil => simp
  | cons next part =>
      rw [List.dropLast_cons_cons, List.forall_mem_cons, and_left_comm]
      simp

/-- What a part of the stream brings is right from its first item to its last one exactly if the
part is in place. -/
theorem exact_iff_inPlace (part : List TelnetItem) :
    (∀ cur, cur <+: part → text.output (encodeItems cur) = contents cur) ↔ InPlace part := by
  induction part with
  | nil =>
      refine ⟨fun _ => ⟨List.forall_mem_nil _, List.forall_mem_nil _⟩, fun _ cur hcur => ?_⟩
      rw [List.prefix_nil.mp hcur]
      rfl
  | cons item part ih =>
      have hsplit (cur : List TelnetItem) : text.output (encodeItems (item :: cur)) =
          text.output item.encode ++ (text.run item.encode).output (encodeItems cur) := by
        rw [encodeItems, List.flatMap_cons, output_append, encodeItems]
      have hcontents (cur : List TelnetItem) :
          contents (item :: cur) = item.content ++ contents cur := List.flatMap_cons
      rw [inPlace_cons]
      constructor
      · intro h
        have hitem : text.output item.encode = item.content := by
          have hfirst := h [item] (List.prefix_append [item] part)
          simpa [encodeItems, contents] using hfirst
        have hunescaped : item.Unescaped := by
          rintro payload rfl hmem
          exact output_escaped_ne_nil hmem [telnetIac, telnetSe] hitem
        have hrest (cur : List TelnetItem) (hcur : cur <+: part) :
            (text.run item.encode).output (encodeItems cur) = contents cur := by
          have hboth := h (item :: cur) (List.cons_prefix_cons.mpr ⟨rfl, hcur⟩)
          rw [hsplit, hcontents, hitem] at hboth
          exact List.append_cancel_left hboth
        have hlast : item.IsCommand → part = [] := by
          rintro ⟨c, hc, rfl⟩
          cases part with
          | nil => rfl
          | cons next part =>
              have hrun : text.run (TelnetItem.command c hc).encode = .option :=
                (if_neg (command_ne_iac hc)).trans (if_neg (UInt8.ne_of_lt hc.2))
              have hnext := hrest [next] (List.prefix_append [next] part)
              rw [hrun] at hnext
              refine absurd ?_ (output_option_encode next)
              simpa [encodeItems, contents] using hnext
        refine ⟨hunescaped, hlast, ?_⟩
        by_cases hcommand : item.IsCommand
        · rw [hlast hcommand]
          exact ⟨List.forall_mem_nil _, List.forall_mem_nil _⟩
        · exact ih.mp fun cur hcur => by rw [← hrest cur hcur, run_encode hunescaped hcommand]
      · rintro ⟨hunescaped, hlast, hpart⟩ cur hcur
        cases cur with
        | nil => rfl
        | cons first cur =>
            obtain ⟨hfirst, hcur⟩ := List.cons_prefix_cons.mp hcur
            rw [hfirst, hsplit, hcontents, output_encode hunescaped]
            by_cases hcommand : item.IsCommand
            · rw [hlast hcommand] at hcur
              rw [List.prefix_nil.mp hcur]
              rfl
            · rw [run_encode hunescaped hcommand, ih.mpr hpart cur hcur]

/-- What has been sent of the parts at some time: some of them, and the items of the next one that
have been sent. -/
def Begun (begun parts : List (List TelnetItem)) : Prop :=
  ∃ full cur part, begun = full ++ [cur] ∧ cur <+: part ∧ full ++ [part] <+: parts

/-- The parts fit into the buffer. -/
def PartsFit (parts : List (List TelnetItem)) : Prop :=
  ∀ part ∈ parts, (encodeItems part).length ≤ recvBufferSize

theorem length_encodeItems_le {cur part : List TelnetItem} (h : cur <+: part) :
    (encodeItems cur).length ≤ (encodeItems part).length := by
  obtain ⟨rest, rfl⟩ := h
  rw [encodeItems, encodeItems, List.flatMap_append, List.length_append]
  exact Nat.le_add_right _ _

theorem filteredParts_encodeItems {parts : List (List TelnetItem)} (hfit : PartsFit parts) :
    filteredParts (parts.map encodeItems) =
      parts.flatMap fun part => text.output (encodeItems part) := by
  rw [filteredParts, List.flatMap_map]
  exact List.flatMap_congr fun part hpart => telnetFilter_eq (Nat.lt_succ_of_le (hfit part hpart))

theorem contents_flatten (parts : List (List TelnetItem)) :
    contents parts.flatten = parts.flatMap contents := by
  induction parts with
  | nil => rfl
  | cons part parts ih =>
      rw [List.flatten_cons, List.flatMap_cons, ← ih, contents, List.flatMap_append]
      rfl

/-- Whatever has been sent is the beginning of one of the parts. -/
theorem Begun.exists_part {begun parts : List (List TelnetItem)} (h : Begun begun parts) :
    ∀ cur ∈ begun, ∃ part ∈ parts, cur <+: part := by
  obtain ⟨full, cur, part, rfl, hcur, hprefix⟩ := h
  intro sent hsent
  obtain hsent | hsent := List.mem_append.mp hsent
  · exact ⟨sent, hprefix.subset (List.mem_append_left _ hsent), List.prefix_refl _⟩
  · rw [List.mem_singleton.mp hsent]
    exact ⟨part, hprefix.subset (List.mem_append_right _ (List.mem_singleton_self _)), hcur⟩

theorem PartsFit.begun {begun parts : List (List TelnetItem)} (hfit : PartsFit parts)
    (h : Begun begun parts) : PartsFit begun := by
  intro cur hcur
  obtain ⟨part, hpart, hprefix⟩ := h.exists_part cur hcur
  exact Nat.le_trans (length_encodeItems_le hprefix) (hfit part hpart)

/-- The data is out at any time exactly if all parts are in place. -/
theorem begun_iff_inPlace {parts : List (List TelnetItem)} (hfit : PartsFit parts) :
    (∀ begun, Begun begun parts →
        filteredParts (begun.map encodeItems) = contents begun.flatten) ↔
      ∀ part ∈ parts, InPlace part := by
  constructor
  · intro h part hpart
    obtain ⟨full, rest, rfl⟩ := List.append_of_mem hpart
    have hsent (cur : List TelnetItem) (hcur : cur <+: part) :
        (full.flatMap fun part => text.output (encodeItems part)) ++
          text.output (encodeItems cur) = full.flatMap contents ++ contents cur := by
      have hbegun : Begun (full ++ [cur]) (full ++ part :: rest) :=
        ⟨full, cur, part, rfl, hcur, rest, by rw [List.append_assoc, List.singleton_append]⟩
      have hall := h _ hbegun
      rw [filteredParts_encodeItems (hfit.begun hbegun), contents_flatten, List.flatMap_append,
        List.flatMap_append] at hall
      simpa using hall
    refine (exact_iff_inPlace part).mp fun cur hcur => ?_
    have hfull := hsent [] List.nil_prefix
    have hcut := hsent cur hcur
    have hnone : text.output (encodeItems []) = contents [] := rfl
    rw [hnone] at hfull
    rw [List.append_cancel_right hfull] at hcut
    exact List.append_cancel_left hcut
  · intro h begun hbegun
    rw [filteredParts_encodeItems (hfit.begun hbegun), contents_flatten]
    refine List.flatMap_congr fun cur hcur => ?_
    obtain ⟨part, hpart, hprefix⟩ := hbegun.exists_part cur hcur
    exact (exact_iff_inPlace part).mpr (h part hpart) cur hprefix

/-- **Telnet commands** are taken out of a stream, however it is cut, exactly if it has none, and no
byte 255 as data either. If it is cut between two items, its data is out at any time exactly if the
parts are in place. -/
theorem deliversData_iff (items : List TelnetItem) (parts : List (List TelnetItem)) :
    (DeliversData items ↔ ∀ item ∈ items, item.IsData) ∧
      (PartsFit parts →
        ((∀ begun, Begun begun parts →
            filteredParts (begun.map encodeItems) = contents begun.flatten) ↔
          ∀ part ∈ parts, InPlace part)) :=
  ⟨deliversData_iff_isData items, begun_iff_inPlace⟩

/-- A byte 255 does not come out if its two halves do not come together. -/
theorem deliversData_violated : ¬ ∀ items, DeliversData items := by
  intro hall
  exact absurd (hall [.escaped] [[telnetIac], [telnetIac]] rfl (by decide)) (by decide)

end HalOS

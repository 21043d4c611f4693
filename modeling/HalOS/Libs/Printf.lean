import HalOS.Lib.CString
import HalOS.Lib.Numeral
import HalOS.Mm.Pmm

/-!
# Formatted Output

`_vsnprintf` of `libs/printf.c` with its functions for strings, characters and integers. The
characters go to an output function one by one, each with the index it has in the output, which is
an `unsigned int`; the state of that function is carried along.

The format is the list of its characters before the terminator, and the arguments are what
`va_arg` will return; the characters of a number are put into a list for the buffer `buf`, whose
length is `len`. What `_ftoa` and `_etoa` put out for a `double` is a parameter. The types of
64 bits are not supported by this build of the library: their conversions take no argument and put
nothing out.
-/

namespace HalOS

namespace Printf

open CString (Memory)

/-- What goes wrong: a format that ends within a conversion, of which the loop reads on behind the
terminator, and an argument that is not there. -/
inductive Fault
  | format
  | argument
deriving DecidableEq, Repr

/-- What `va_arg` returns: a word, a string, or the bits of a `double`. -/
inductive VaArg
  | word (v : UInt32)
  | string (s : List UInt8)
  | double (bits : UInt64)
deriving DecidableEq, Repr

/-- The bits of `flags`. -/
structure Flags where
  zeropad : Bool
  left : Bool
  plus : Bool
  space : Bool
  hash : Bool
  uppercase : Bool
  char : Bool
  short : Bool
  long : Bool
  longLong : Bool
  precision : Bool
  adaptExp : Bool
deriving DecidableEq, Repr

/-- `flags = 0U`. -/
def Flags.none : Flags :=
  ⟨false, false, false, false, false, false, false, false, false, false, false, false⟩

/-- `PRINTF_NTOA_BUFFER_SIZE`. -/
abbrev ntoaBufferSize : ℕ := 32

/-- The text that `_ftoa` and `_etoa` put out, by value, precision, width and flags. -/
structure FloatText where
  ftoa : UInt64 → ℕ → ℕ → Flags → List UInt8
  etoa : UInt64 → ℕ → ℕ → Flags → List UInt8

/-! ### Output functions -/

/-- An output function with its `maxlen`: it is given a character and its index. -/
structure Sink (τ : Type) where
  out : UInt8 → ℕ → ℕ → τ → τ
  maxlen : ℕ

/-- `_out_buffer`. -/
def outBuffer (buffer : ℕ) (c : UInt8) (idx maxlen : ℕ) (m : Memory) : Memory :=
  if idx < maxlen then Function.update m (buffer + idx) c else m

/-- `_out_null`. -/
def outNull {τ : Type} (_ : UInt8) (_ _ : ℕ) (s : τ) : τ := s

/-- `_out_char`. -/
def outChar {τ : Type} (putchar : UInt8 → τ → τ) (c : UInt8) (_ _ : ℕ) (s : τ) : τ :=
  if c ≠ 0 then putchar c s else s

variable {τ : Type}

/-- `out(c, buffer, idx++, maxlen)`. -/
def Sink.put (k : Sink τ) (c : UInt8) (st : ℕ × τ) : ℕ × τ :=
  (u32 (st.1 + 1), k.out c st.1 k.maxlen st.2)

/-- `n` spaces. -/
def spaces (k : Sink τ) : ℕ → ℕ × τ → ℕ × τ
  | 0, st => st
  | n + 1, st => spaces k n (k.put 0x20 st)

/-- Characters one after another. -/
def putAll (k : Sink τ) : List UInt8 → ℕ × τ → ℕ × τ
  | [], st => st
  | c :: text, st => putAll k text (k.put c st)

/-! ### Numbers -/

/-- `_is_digit`. -/
def isDigit (c : UInt8) : Bool := 0x30 ≤ c && c ≤ 0x39

/-- `_atoi`, with what follows the number. -/
def atoi : List UInt8 → ℕ → ℕ × List UInt8
  | [], i => (i, [])
  | c :: format, i =>
      if isDigit c then atoi format (u32 (i * 10 + (c - 0x30).toNat)) else (i, c :: format)

/-- The loop of `_out_rev` that pads on the right, with as much fuel as `width`. -/
def padRight (k : Sink τ) (startIdx width : ℕ) : ℕ → ℕ × τ → ℕ × τ
  | 0, st => st
  | n + 1, st =>
      if u32 (st.1 + 2 ^ 32 - startIdx) < width then padRight k startIdx width n (k.put 0x20 st)
      else st

/-- `_out_rev`. -/
def outRev (k : Sink τ) (buf : List UInt8) (width : ℕ) (flags : Flags) (st : ℕ × τ) : ℕ × τ :=
  let startIdx := st.1
  let st := if !flags.left && !flags.zeropad then spaces k (width - buf.length) st else st
  let st := putAll k buf.reverse st
  if flags.left then padRight k startIdx width width st else st

/-- `while ((len < n) && (len < PRINTF_NTOA_BUFFER_SIZE)) buf[len++] = '0';` -/
def fillZeros (buf : List UInt8) (n : ℕ) : List UInt8 :=
  buf ++ List.replicate (min n ntoaBufferSize - buf.length) 0x30

/-- `if (len < PRINTF_NTOA_BUFFER_SIZE) buf[len++] = c;` -/
def pushChar (buf : List UInt8) (c : UInt8) : List UInt8 :=
  if buf.length < ntoaBufferSize then buf ++ [c] else buf

/-- The part of `_ntoa_format` that pads with zeros: the buffer and the width. -/
def ntoaZeros (buf : List UInt8) (negative : Bool) (prec width : ℕ) (flags : Flags) :
    List UInt8 × ℕ :=
  if flags.left then (buf, width)
  else
    let width :=
      if width ≠ 0 && flags.zeropad && (negative || flags.plus || flags.space) then width - 1
      else width
    let buf := fillZeros buf prec
    (if flags.zeropad then fillZeros buf width else buf, width)

/-- The part of `_ntoa_format` that handles the hash. -/
def ntoaHash (buf : List UInt8) (base prec width : ℕ) (flags : Flags) : List UInt8 :=
  if flags.hash then
    let buf :=
      if !flags.precision && buf.length ≠ 0 && (buf.length = prec || buf.length = width) then
        let buf := buf.dropLast
        if buf.length ≠ 0 && base = 16 then buf.dropLast else buf
      else buf
    let buf :=
      if base = 16 && !flags.uppercase then pushChar buf 0x78
      else if base = 16 && flags.uppercase then pushChar buf 0x58
      else if base = 2 then pushChar buf 0x62
      else buf
    pushChar buf 0x30
  else buf

/-- The part of `_ntoa_format` that adds the sign. -/
def ntoaSign (buf : List UInt8) (negative : Bool) (flags : Flags) : List UInt8 :=
  if negative then pushChar buf 0x2D
  else if flags.plus then pushChar buf 0x2B
  else if flags.space then pushChar buf 0x20
  else buf

/-- `_ntoa_format`. -/
def ntoaFormat (k : Sink τ) (buf : List UInt8) (negative : Bool) (base prec width : ℕ)
    (flags : Flags) (st : ℕ × τ) : ℕ × τ :=
  let (buf, width) := ntoaZeros buf negative prec width flags
  let buf := ntoaHash buf base prec width flags
  let buf := ntoaSign buf negative flags
  outRev k buf width flags st

/-- `digit < 10 ? '0' + digit : (flags & FLAGS_UPPERCASE ? 'A' : 'a') + digit - 10`. -/
def digitChar (uppercase : Bool) (digit : ℕ) : UInt8 :=
  UInt8.ofNat (if digit < 10 then 0x30 + digit else (if uppercase then 0x41 else 0x61) + digit - 10)

/-- The loop of `_ntoa_long`, with so much room left in the buffer. -/
def digitLoop (uppercase : Bool) (base : ℕ) : ℕ → ℕ → List UInt8 → List UInt8
  | 0, _, buf => buf
  | n + 1, value, buf =>
      let buf := buf ++ [digitChar uppercase (value % base)]
      if value / base ≠ 0 then digitLoop uppercase base n (value / base) buf else buf

/-- `_ntoa_long`. -/
def ntoaLong (k : Sink τ) (value : ℕ) (negative : Bool) (base prec width : ℕ) (flags : Flags)
    (st : ℕ × τ) : ℕ × τ :=
  let flags := if value = 0 then { flags with hash := false } else flags
  let buf :=
    if !flags.precision || value ≠ 0 then digitLoop flags.uppercase base ntoaBufferSize value []
    else []
  ntoaFormat k buf negative base prec width flags st

/-! ### Conversions -/

/-- The loop that evaluates the flags. -/
def formatFlags : List UInt8 → Flags → Flags × List UInt8
  | [], flags => (flags, [])
  | c :: format, flags =>
      if c = 0x30 then formatFlags format { flags with zeropad := true }
      else if c = 0x2D then formatFlags format { flags with left := true }
      else if c = 0x2B then formatFlags format { flags with plus := true }
      else if c = 0x20 then formatFlags format { flags with space := true }
      else if c = 0x23 then formatFlags format { flags with hash := true }
      else (flags, c :: format)

/-- What is known of a conversion, with the rest of the format and the other arguments. -/
structure Spec where
  flags : Flags
  width : ℕ
  precision : ℕ
  format : List UInt8
  args : List VaArg
deriving DecidableEq

/-- `va_arg(va, int)`. -/
def nextWord : List VaArg → Except Fault (UInt32 × List VaArg)
  | .word v :: args => .ok (v, args)
  | _ => .error .argument

/-- `va_arg(va, double)`. -/
def nextDouble : List VaArg → Except Fault (UInt64 × List VaArg)
  | .double v :: args => .ok (v, args)
  | _ => .error .argument

/-- `va_arg(va, char *)`. -/
def nextString : List VaArg → Except Fault (List UInt8 × List VaArg)
  | .string p :: args => .ok (p, args)
  | _ => .error .argument

/-- The width field. -/
def formatWidth (s : Spec) : Except Fault Spec :=
  match s.format with
  | [] => .ok s
  | c :: format =>
      if isDigit c then
        let (width, format) := atoi (c :: format) 0
        .ok { s with width := width, format := format }
      else if c = 0x2A then do
        let (w, args) ← nextWord s.args
        if w.toInt32 < 0 then
          return { s with
            flags := { s.flags with left := true }, width := (0 - w).toNat, format := format,
            args := args }
        else return { s with width := w.toNat, format := format, args := args }
      else .ok s

/-- The precision field behind its period. -/
def precisionValue (s : Spec) : Except Fault Spec :=
  match s.format with
  | [] => .ok s
  | c :: format =>
      if isDigit c then
        let (precision, format) := atoi (c :: format) 0
        .ok { s with precision := precision, format := format }
      else if c = 0x2A then do
        let (prec, args) ← nextWord s.args
        return { s with
          precision := if 0 < prec.toInt32 then prec.toNat else 0, format := format, args := args }
      else .ok s

/-- The precision field. -/
def formatPrecision (s : Spec) : Except Fault Spec :=
  match s.format with
  | [] => .ok s
  | c :: format =>
      if c = 0x2E then
        precisionValue { s with flags := { s.flags with precision := true }, format := format }
      else .ok s

/-- The length field; `ptrdiff_t` and `size_t` are as long as `long`, `intmax_t` is not. -/
def formatLength (s : Spec) : Spec :=
  match s.format with
  | [] => s
  | c :: format =>
      if c = 0x6C then
        let s := { s with flags := { s.flags with long := true }, format := format }
        if format.head? = some 0x6C then
          { s with flags := { s.flags with longLong := true }, format := format.tail }
        else s
      else if c = 0x68 then
        let s := { s with flags := { s.flags with short := true }, format := format }
        if format.head? = some 0x68 then
          { s with flags := { s.flags with char := true }, format := format.tail }
        else s
      else if c = 0x74 then { s with flags := { s.flags with long := true }, format := format }
      else if c = 0x6A then { s with flags := { s.flags with longLong := true }, format := format }
      else if c = 0x7A then { s with flags := { s.flags with long := true }, format := format }
      else s

/-- The value of an argument for `%d` and `%i`, as a word. -/
def signedValue (flags : Flags) (v : UInt32) : Int32 :=
  if flags.long then v.toInt32
  else if flags.char then v.toUInt8.toInt8.toInt32
  else if flags.short then v.toUInt16.toInt16.toInt32
  else v.toInt32

/-- The value of an argument for the other integer conversions. -/
def unsignedValue (flags : Flags) (v : UInt32) : ℕ :=
  if flags.long then v.toNat
  else if flags.char then v.toUInt8.toNat
  else if flags.short then v.toUInt16.toNat
  else v.toNat

/-- The base of the conversion `c`. -/
def integerBase (c : UInt8) : ℕ :=
  if c = 0x78 || c = 0x58 then 16 else if c = 0x6F then 8 else if c = 0x62 then 2 else 10

/-- `(*format == 'i') || (*format == 'd')`. -/
def isSigned (c : UInt8) : Bool := c = 0x69 || c = 0x64

/-- The flags that are left for the conversion `c` of an integer. -/
def integerFlags (c : UInt8) (flags : Flags) : Flags :=
  let flags := if integerBase c = 10 then { flags with hash := false } else flags
  let flags := if c = 0x58 then { flags with uppercase := true } else flags
  let flags := if !isSigned c then { flags with plus := false, space := false } else flags
  if flags.precision then { flags with zeropad := false } else flags

/-- Whether the argument is a negative number for the conversion `c`. -/
def isNegative (c : UInt8) (flags : Flags) (v : UInt32) : Bool :=
  isSigned c && signedValue flags v < 0

/-- The argument without its sign: `value > 0 ? value : 0 - value`. -/
def magnitude (c : UInt8) (flags : Flags) (v : UInt32) : ℕ :=
  if isSigned c then
    let value := signedValue flags v
    (if 0 < value then value else 0 - value).toUInt32.toNat
  else unsignedValue flags v

/-- The conversion of an integer by the character `c`. -/
def convertInteger (k : Sink τ) (c : UInt8) (s : Spec) (st : ℕ × τ) :
    Except Fault ((ℕ × τ) × List VaArg) :=
  let flags := integerFlags c s.flags
  if flags.longLong then .ok (st, s.args)
  else do
    let (v, args) ← nextWord s.args
    return (ntoaLong k (magnitude c flags v) (isNegative c flags v) (integerBase c) s.precision
      s.width flags st, args)

/-- The conversion of a string. -/
def convertString (k : Sink τ) (p : List UInt8) (s : Spec) (st : ℕ × τ) : ℕ × τ :=
  let l := if s.precision ≠ 0 then min p.length s.precision else p.length
  let l := if s.flags.precision then (if l < s.precision then l else s.precision) else l
  let st := if !s.flags.left then spaces k (s.width - l) st else st
  let st := putAll k (if s.flags.precision then p.take s.precision else p) st
  if s.flags.left then spaces k (s.width - l) st else st

/-- The conversion of a character. -/
def convertChar (k : Sink τ) (c : UInt8) (s : Spec) (st : ℕ × τ) : ℕ × τ :=
  let st := if !s.flags.left then spaces k (s.width - 1) st else st
  let st := k.put c st
  if s.flags.left then spaces k (s.width - 1) st else st

/-- The flags for `_ftoa`. -/
def ftoaFlags (c : UInt8) (flags : Flags) : Flags :=
  if c = 0x46 then { flags with uppercase := true } else flags

/-- The flags for `_etoa`. -/
def etoaFlags (c : UInt8) (flags : Flags) : Flags :=
  let flags := if c = 0x67 || c = 0x47 then { flags with adaptExp := true } else flags
  if c = 0x45 || c = 0x47 then { flags with uppercase := true } else flags

/-- The conversion by the character `c`. -/
def convert (fp : FloatText) (k : Sink τ) (c : UInt8) (s : Spec) (st : ℕ × τ) :
    Except Fault ((ℕ × τ) × List VaArg) :=
  if c ∈ [0x64, 0x69, 0x75, 0x78, 0x58, 0x6F, 0x62] then convertInteger k c s st
  else if c ∈ [0x66, 0x46] then do
    let (v, args) ← nextDouble s.args
    return (putAll k (fp.ftoa v s.precision s.width (ftoaFlags c s.flags)) st, args)
  else if c ∈ [0x65, 0x45, 0x67, 0x47] then do
    let (v, args) ← nextDouble s.args
    return (putAll k (fp.etoa v s.precision s.width (etoaFlags c s.flags)) st, args)
  else if c = 0x63 then do
    let (v, args) ← nextWord s.args
    return (convertChar k v.toUInt8 s st, args)
  else if c = 0x73 then do
    let (p, args) ← nextString s.args
    return (convertString k p s st, args)
  else if c = 0x70 then do
    let (v, args) ← nextWord s.args
    return (ntoaLong k v.toNat false 16 s.precision 8
      { s.flags with zeropad := true, uppercase := true } st, args)
  else .ok (k.put c st, s.args)

/-- What stands between `%` and the conversion. -/
def formatSpec (format : List UInt8) (args : List VaArg) : Except Fault Spec := do
  let (flags, format) := formatFlags format .none
  let s ← formatWidth ⟨flags, 0, 0, format, args⟩
  let s ← formatPrecision s
  return formatLength s

/-- The loop of `_vsnprintf`, with fuel for the rounds. -/
def vsnprintfLoop (fp : FloatText) (k : Sink τ) :
    ℕ → List UInt8 → List VaArg → ℕ × τ → Except Fault (ℕ × τ)
  | _, [], _, st => .ok st
  | 0, _, _, st => .ok st
  | fuel + 1, c :: format, args, st =>
      if c ≠ 0x25 then vsnprintfLoop fp k fuel format args (k.put c st)
      else do
        let s ← formatSpec format args
        match s.format with
        | [] => .error .format
        | c :: format => do
            let (st, args) ← convert fp k c s st
            vsnprintfLoop fp k fuel format args st

/-- `_vsnprintf` with an output function: the index, which is returned, and the state. -/
def vsnprintf (fp : FloatText) (k : Sink τ) (format : List UInt8) (args : List VaArg) (s : τ) :
    Except Fault (ℕ × τ) := do
  let (idx, s) ← vsnprintfLoop fp k format.length format args (0, s)
  return (idx, k.out 0 (if idx < k.maxlen then idx else u32 (k.maxlen + 2 ^ 32 - 1)) k.maxlen s)

/-! ### The functions of the library -/

/-- `snprintf_` and `vsnprintf_`, into the memory at `buffer`; a null buffer is not written to. -/
def snprintf (fp : FloatText) (buffer count : ℕ) (format : List UInt8) (args : List VaArg)
    (m : Memory) : Except Fault (ℕ × Memory) :=
  vsnprintf fp ⟨if buffer = 0 then outNull else outBuffer buffer, count⟩ format args m

/-- `sprintf_`. -/
def sprintf (fp : FloatText) (buffer : ℕ) (format : List UInt8) (args : List VaArg) (m : Memory) :
    Except Fault (ℕ × Memory) :=
  snprintf fp buffer (2 ^ 32 - 1) format args m

/-- `printf_` and `vprintf_`, to `_putchar`. -/
def printf (fp : FloatText) (putchar : UInt8 → τ → τ) (format : List UInt8) (args : List VaArg)
    (s : τ) : Except Fault (ℕ × τ) :=
  vsnprintf fp ⟨outChar putchar, 2 ^ 32 - 1⟩ format args s

end Printf

end HalOS

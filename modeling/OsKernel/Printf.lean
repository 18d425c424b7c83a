import OsKernel.Itoa

/-!
# `printf` and its number formats

`printf` walks over the format, prints what is not a conversion, and converts its arguments in local
arrays of 64 and 36 bytes, whatever these held before. What it prints is the list of the characters it
hands to `putc`. A `%` at the end of the format makes it read past the terminator; there is no result
then, as there is none for a store outside of a local array.
-/

namespace OsKernel

open Library

/-- The loop of `puts` from an index, with the number of addresses left to look at. -/
def putsFrom (s : Bytes) (index : ℕ) : ℕ → List UInt8
  | 0 => []
  | left + 1 => if s index = 0 then [] else s index :: putsFrom s (index + 1) left

/-- `int32_t puts(int8_t* s)`: the characters for `putc`. -/
def puts (s : Bytes) : List UInt8 := putsFrom s 0 4294967296

/-- What `printf` reads: its arguments, the memory of its string arguments, and what its local array holds
when an argument is converted. -/
structure PrintfArgs where
  arg : ℕ → UInt32
  memory : UInt32 → UInt8
  stale : ℕ → Bytes

/-- The loop that fills `conv_buf` with zeros up to index 8. -/
def fillZeros (size i : ℕ) (mem : Bytes) : Option Bytes :=
  if i < 8 then (storeChar size mem i 0x30).bind (fillZeros size (i + 1)) else some mem
termination_by 8 - i

/-- `%x`, and `%#x` -/
def convHex (alternate : Bool) (value : UInt32) (convBuf : Bytes) : Option (List UInt8) :=
  if alternate then
    (itoa 64 value 8 16 convBuf).bind fun convBuf =>
      let startingIndex := strlen fun k => convBuf (8 + k)
      (fillZeros 64 startingIndex convBuf).map fun convBuf => puts fun k => convBuf (startingIndex + k)
  else (itoa 64 value 0 16 convBuf).map puts

/-- `%u` -/
def convUnsigned (value : UInt32) (convBuf : Bytes) : Option (List UInt8) := (itoa 36 value 0 10 convBuf).map puts

/-- `%d`; the negation of the least `int32_t` is itself, and `itoa` takes it as unsigned. -/
def convSigned (value : Int32) (convBuf : Bytes) : Option (List UInt8) :=
  if value < 0 then
    (storeChar 36 convBuf 0 0x2D).bind fun convBuf => (itoa 36 (-value).toUInt32 1 10 convBuf).map puts
  else (itoa 36 value.toUInt32 0 10 convBuf).map puts

/-- Where `printf` is in the format: in the text, or behind a `%` with the value of `alternate`. -/
inductive FormatPlace where
  | text
  | spec (alternate : Bool)

namespace PrintfArgs

variable (a : PrintfArgs)

/-- The loop of `printf` over the rest of the format, with the number of arguments taken. -/
def printfFrom : FormatPlace → List UInt8 → ℕ → Option (List UInt8)
  | .text, [], _ => some []
  | .spec _, [], _ => none
  | .text, c :: rest, esp =>
    if c = 0x25 then printfFrom (.spec false) rest esp
    else (printfFrom .text rest esp).map (c :: ·)
  | .spec alternate, c :: rest, esp =>
    -- `%`
    if c = 0x25 then (printfFrom .text rest esp).map (0x25 :: ·)
    -- `#`
    else if c = 0x23 then printfFrom (.spec true) rest esp
    -- `x`
    else if c = 0x78 then
      (convHex alternate (a.arg esp) (a.stale esp)).bind fun out => (printfFrom .text rest (esp + 1)).map (out ++ ·)
    -- `u`
    else if c = 0x75 then
      (convUnsigned (a.arg esp) (a.stale esp)).bind fun out => (printfFrom .text rest (esp + 1)).map (out ++ ·)
    -- `d`
    else if c = 0x64 then
      (convSigned (a.arg esp).toInt32 (a.stale esp)).bind fun out =>
        (printfFrom .text rest (esp + 1)).map (out ++ ·)
    -- `c`
    else if c = 0x63 then (printfFrom .text rest (esp + 1)).map ((a.arg esp).toUInt8 :: ·)
    -- `s`
    else if c = 0x73 then
      (printfFrom .text rest (esp + 1)).map ((puts fun k => a.memory (a.arg esp + UInt32.ofNat k)) ++ ·)
    else printfFrom .text rest esp

/-- `int32_t printf(int8_t *format, ...)`: the length of the format, and the characters for `putc`. -/
def printf (format : List UInt8) : Option (ℕ × List UInt8) :=
  (a.printfFrom .text format 0).map fun out => (format.length, out)

end PrintfArgs

/-- `puts` prints the word that its string spells. -/
theorem putsFrom_of_spells {s : Bytes} {w : List UInt8} (h : Spells s w) {index left : ℕ} (hindex : index ≤ w.length)
    (hleft : w.length < index + left) : putsFrom s index left = w.drop index := by
  induction left generalizing index with
  | zero => omega
  | succ left ih =>
    rw [putsFrom]
    rcases Nat.lt_or_eq_of_le hindex with hlt | rfl
    · have hletter := h.letter index hlt
      rw [List.getElem?_eq_getElem hlt] at hletter
      rw [if_neg (h.ne_zero hlt), ih hlt (by omega), List.drop_eq_getElem_cons hlt, Option.some.inj hletter]
    · rw [if_pos h.terminated, List.drop_length]

/-- `puts` prints the word that its string spells. -/
theorem puts_of_spells {s : Bytes} {w : List UInt8} (h : Spells s w) (hshort : w.length < 4294967296) : puts s = w := by
  rw [puts, putsFrom_of_spells h (Nat.zero_le _) (by omega), List.drop_zero]

/-- The fill loop stores zeros from its index up to 8, and nothing else. -/
theorem fillZeros_spec {size : ℕ} (hsize : 8 ≤ size) (i : ℕ) (mem : Bytes) :
    ∃ mem', fillZeros size i mem = some mem' ∧ (∀ j, i ≤ j → j < 8 → mem' j = 0x30) ∧
      ∀ j, j < i ∨ 8 ≤ j → mem' j = mem j := by
  fun_induction fillZeros size i mem with
  | case1 i mem hlt ih =>
    rw [storeChar_of_lt (by omega), Option.bind_some]
    obtain ⟨mem', hfill, hzeros, hkeep⟩ := ih (Function.update mem i 0x30)
    refine ⟨mem', hfill, fun j hlower hupper => ?_, fun j hj => ?_⟩
    · rcases Nat.lt_or_eq_of_le hlower with hlater | rfl
      · exact hzeros j hlater hupper
      · rw [hkeep i (.inl (Nat.lt_succ_self i)), Function.update_self]
    · rw [hkeep j (by omega), Function.update_of_ne (by omega)]
  | case2 i mem hge =>
    exact ⟨mem, rfl, fun j hlower hupper => absurd (Nat.lt_of_le_of_lt hlower hupper) hge, fun _ _ => rfl⟩

/-- A word has at most eight hexadecimal digits. -/
theorem length_hexNumeral_le (value : UInt32) : (numeral 16 value.toNat).length ≤ 8 :=
  length_numeral_le (by decide) (by decide) value.toNat_lt

/-- A word has at most ten decimal digits. -/
theorem length_decimalNumeral_le (value : UInt32) : (numeral 10 value.toNat).length ≤ 10 :=
  length_numeral_le (by decide) (by decide) (Nat.lt_of_lt_of_le value.toNat_lt (by decide))

/-- A conversion at the start of a local array prints the numeral. -/
theorem puts_itoa (size : ℕ) (value radix : UInt32) (hradix : 1 < radix.toNat) (hmax : radix.toNat ≤ 36)
    (hroom : (numeral radix.toNat value.toNat).length < size) (hsize : size ≤ 64) (convBuf : Bytes) :
    (itoa size value 0 radix convBuf).map puts = some ((numeral radix.toNat value.toNat).map digitChar) := by
  have hfits : 0 + (numeral radix.toNat value.toNat).length < size := by omega
  obtain ⟨mem', hitoa, hspells, -⟩ := itoa_numeral size 0 value radix hradix hmax hfits convBuf
  simp only [Nat.zero_add] at hspells
  rw [hitoa, Option.map_some, puts_of_spells hspells (by rw [List.length_map]; omega)]

/-- `%x` -/
theorem convHex_plain (value : UInt32) (convBuf : Bytes) :
    convHex false value convBuf = some ((numeral 16 value.toNat).map digitChar) := by
  have hfew := length_hexNumeral_le value
  exact puts_itoa 64 value 16 (by decide) (by decide) (Nat.lt_of_le_of_lt hfew (by decide)) le_rfl convBuf

/-- A decimal conversion at the start of the smaller array. -/
theorem puts_itoa_decimal (value : UInt32) (convBuf : Bytes) :
    (itoa 36 value 0 10 convBuf).map puts = some ((numeral 10 value.toNat).map digitChar) := by
  have hfew := length_decimalNumeral_le value
  exact puts_itoa 36 value 10 (by decide) (by decide) (Nat.lt_of_le_of_lt hfew (by decide)) (by decide) convBuf

/-- `%u` -/
theorem convUnsigned_eq (value : UInt32) (convBuf : Bytes) :
    convUnsigned value convBuf = some ((numeral 10 value.toNat).map digitChar) :=
  puts_itoa_decimal value convBuf

/-- `%#x`: zeros between the two regions of the array complete the numeral to eight digits. -/
theorem convHex_alternate (value : UInt32) (convBuf : Bytes) :
    convHex true value convBuf =
      some ((List.replicate (8 - (numeral 16 value.toNat).length) 0 ++ numeral 16 value.toNat).map digitChar) := by
  have hfew := length_hexNumeral_le value
  have hfits : 8 + (numeral (16 : UInt32).toNat value.toNat).length < 64 :=
    Nat.lt_of_le_of_lt (Nat.add_le_add_left hfew 8) (by decide)
  obtain ⟨converted, hitoa, hspells, -⟩ := itoa_numeral 64 8 value 16 (by decide) (by decide) hfits convBuf
  change Spells _ ((numeral 16 value.toNat).map digitChar) at hspells
  generalize numeral 16 value.toNat = digits at *
  have hlen : strlen (fun k => converted (8 + k)) = digits.length := by
    rw [strlen_of_spells hspells, List.length_map]
    omega
  obtain ⟨filled, hfill, hzeros, hkeep⟩ := fillZeros_spec (by decide : 8 ≤ 64) digits.length converted
  have hpadded : Spells (fun k => filled (digits.length + k))
      ((List.replicate (8 - digits.length) 0).map digitChar ++ digits.map digitChar) := by
    rw [List.map_replicate]
    refine Spells.prepend (fun i hi => ?_) (fun hmem => ?_) ?_
    · rw [List.length_replicate] at hi
      rw [List.getElem?_replicate, if_pos hi, hzeros _ (Nat.le_add_right _ i) (by omega)]
      rfl
    · exact absurd (List.eq_of_mem_replicate hmem) (by decide)
    · have hbehind :
          (fun k => filled (digits.length + ((List.replicate (8 - digits.length) (digitChar 0)).length + k))) =
          fun k => converted (8 + k) := by
        funext k
        rw [List.length_replicate, hkeep _ (by omega)]
        congr 1
        omega
      rw [hbehind]
      exact hspells
  rw [convHex, if_pos rfl, hitoa, Option.bind_some]
  dsimp only
  rw [hlen, hfill, Option.map_some, List.map_append, puts_of_spells hpadded]
  rw [List.length_append, List.length_map, List.length_map, List.length_replicate]
  omega

/-- The signed decimal of a number. -/
def signedDecimal (v : ℤ) : List UInt8 :=
  if v < 0 then 0x2D :: (numeral 10 v.natAbs).map digitChar else (numeral 10 v.natAbs).map digitChar

/-- The bits of a signed word, read as unsigned. -/
theorem toInt_eq_cond (value : Int32) :
    value.toInt =
      if 2 * value.toUInt32.toNat < 2 ^ 32 then (value.toUInt32.toNat : ℤ) else value.toUInt32.toNat - 2 ^ 32 :=
  BitVec.toInt_eq_toNat_cond value.toUInt32.toBitVec

/-- The negation of a negative word is its absolute value, for the least one too. -/
theorem toNat_neg_of_neg {value : Int32} (hneg : value < 0) : (-value).toUInt32.toNat = value.toInt.natAbs := by
  have hint : value.toInt < 0 := Int32.lt_iff_toInt_lt.mp hneg
  have hcond := toInt_eq_cond value
  have hlt := value.toUInt32.toNat_lt
  rw [Int32.toUInt32_neg, UInt32.toNat_neg]
  change (2 ^ 32 - value.toUInt32.toNat) % 2 ^ 32 = _
  split at hcond <;> omega

/-- A word that is not negative is its absolute value. -/
theorem toNat_of_not_neg {value : Int32} (hneg : ¬value < 0) : value.toUInt32.toNat = value.toInt.natAbs := by
  have hint : ¬value.toInt < 0 := fun hlt => hneg (Int32.lt_iff_toInt_lt.mpr hlt)
  have hcond := toInt_eq_cond value
  have hlt := value.toUInt32.toNat_lt
  split at hcond <;> omega

/-- `%d` -/
theorem convSigned_eq (value : Int32) (convBuf : Bytes) :
    convSigned value convBuf = some (signedDecimal value.toInt) := by
  rw [convSigned, signedDecimal]
  by_cases hneg : value < 0
  · have hint : value.toInt < 0 := Int32.lt_iff_toInt_lt.mp hneg
    rw [if_pos hneg, if_pos hint, storeChar_of_lt (by decide), Option.bind_some, ← toNat_neg_of_neg hneg]
    generalize (-value).toUInt32 = magnitude
    have hfew := length_decimalNumeral_le magnitude
    have hfits : 1 + (numeral (10 : UInt32).toNat magnitude.toNat).length < 36 :=
      Nat.lt_of_le_of_lt (Nat.add_le_add_left hfew 1) (by decide)
    obtain ⟨mem', hitoa, hspells, hkeep⟩ := itoa_numeral 36 1 magnitude 10 (by decide) (by decide) hfits
      (Function.update convBuf 0 0x2D)
    change Spells _ ((numeral 10 magnitude.toNat).map digitChar) at hspells
    have hsigned : Spells mem' ([0x2D] ++ (numeral 10 magnitude.toNat).map digitChar) := by
      refine Spells.prepend (fun i hi => ?_) (by decide) hspells
      obtain rfl : i = 0 := by simpa using hi
      rw [hkeep 0 (.inl Nat.one_pos), Function.update_self]
      rfl
    rw [hitoa, Option.map_some, puts_of_spells hsigned]
    · rfl
    · rw [List.length_append, List.length_map]
      exact Nat.lt_of_le_of_lt (Nat.add_le_add_left hfew 1) (by decide)
  · have hint : ¬value.toInt < 0 := fun hlt => hneg (Int32.lt_iff_toInt_lt.mpr hlt)
    rw [if_neg hneg, if_neg hint, ← toNat_of_not_neg hneg]
    exact puts_itoa_decimal value.toUInt32 convBuf

/-- The least `int32_t`, whose negation is itself. -/
example : signedDecimal (0x80000000 : UInt32).toInt32.toInt =
    [0x2D, 0x32, 0x31, 0x34, 0x37, 0x34, 0x38, 0x33, 0x36, 0x34, 0x38] := by decide +kernel

section Formats

variable (a : PrintfArgs) (rest : List UInt8) (esp : ℕ)

/-- `%x` in a format. -/
theorem printfFrom_hex :
    a.printfFrom .text (0x25 :: 0x78 :: rest) esp =
      (a.printfFrom .text rest (esp + 1)).map ((numeral 16 (a.arg esp).toNat).map digitChar ++ ·) := by
  rw [PrintfArgs.printfFrom, if_pos rfl, PrintfArgs.printfFrom, if_neg (by decide), if_neg (by decide), if_pos rfl,
    convHex_plain, Option.bind_some]

/-- `%#x` in a format. -/
theorem printfFrom_alternate :
    a.printfFrom .text (0x25 :: 0x23 :: 0x78 :: rest) esp =
      (a.printfFrom .text rest (esp + 1)).map ((List.replicate (8 - (numeral 16 (a.arg esp).toNat).length) 0 ++
        numeral 16 (a.arg esp).toNat).map digitChar ++ ·) := by
  rw [PrintfArgs.printfFrom, if_pos rfl, PrintfArgs.printfFrom, if_neg (by decide), if_pos rfl, PrintfArgs.printfFrom,
    if_neg (by decide), if_neg (by decide), if_pos rfl, convHex_alternate, Option.bind_some]

/-- `%u` in a format. -/
theorem printfFrom_unsigned :
    a.printfFrom .text (0x25 :: 0x75 :: rest) esp =
      (a.printfFrom .text rest (esp + 1)).map ((numeral 10 (a.arg esp).toNat).map digitChar ++ ·) := by
  rw [PrintfArgs.printfFrom, if_pos rfl, PrintfArgs.printfFrom, if_neg (by decide), if_neg (by decide),
    if_neg (by decide), if_pos rfl, convUnsigned_eq, Option.bind_some]

/-- `%d` in a format. -/
theorem printfFrom_signed :
    a.printfFrom .text (0x25 :: 0x64 :: rest) esp =
      (a.printfFrom .text rest (esp + 1)).map (signedDecimal (a.arg esp).toInt32.toInt ++ ·) := by
  rw [PrintfArgs.printfFrom, if_pos rfl, PrintfArgs.printfFrom, if_neg (by decide), if_neg (by decide),
    if_neg (by decide), if_neg (by decide), if_pos rfl, convSigned_eq, Option.bind_some]

end Formats

/-- A piece of a format: a character of its text, or a conversion. -/
inductive Piece where
  | plain (c : UInt8) (hplain : c ≠ 0x25)
  | percent
  | hex
  | alternate
  | unsigned
  | signed
  | char
  | string

/-- How the piece is spelled in the format. -/
def Piece.spelled : Piece → List UInt8
  | plain c _ => [c]
  | percent => [0x25, 0x25]
  | hex => [0x25, 0x78]
  | alternate => [0x25, 0x23, 0x78]
  | unsigned => [0x25, 0x75]
  | signed => [0x25, 0x64]
  | char => [0x25, 0x63]
  | string => [0x25, 0x73]

/-- The number of arguments that the piece takes. -/
def Piece.takes : Piece → ℕ
  | plain _ _ | percent => 0
  | _ => 1

/-- What a piece prints when its argument is `arg`: canonical numerals for the numbers, and eight digits for
`%#x`. -/
inductive Piece.Prints (a : PrintfArgs) (arg : UInt32) : Piece → List UInt8 → Prop where
  | plain {c hplain} : Prints a arg (.plain c hplain) [c]
  | percent : Prints a arg .percent [0x25]
  | hex {digits} (h : IsNumeral 16 arg.toNat digits) : Prints a arg .hex (digits.map digitChar)
  | alternate {digits : List ℕ} (hlength : digits.length = 8) (hdigit : ∀ d ∈ digits, d < 16)
      (hvalue : Nat.ofDigits 16 digits.reverse = arg.toNat) : Prints a arg .alternate (digits.map digitChar)
  | unsigned {digits} (h : IsNumeral 10 arg.toNat digits) : Prints a arg .unsigned (digits.map digitChar)
  | negative {digits} (hneg : arg.toInt32.toInt < 0) (h : IsNumeral 10 arg.toInt32.toInt.natAbs digits) :
      Prints a arg .signed (0x2D :: digits.map digitChar)
  | nonneg {digits} (hneg : 0 ≤ arg.toInt32.toInt) (h : IsNumeral 10 arg.toInt32.toInt.natAbs digits) :
      Prints a arg .signed (digits.map digitChar)
  | char : Prints a arg .char [arg.toUInt8]
  | string : Prints a arg .string (puts fun k => a.memory (arg + UInt32.ofNat k))

/-- What the pieces of a format print one behind the other, from the argument with the number `esp`. -/
inductive PiecesPrint (a : PrintfArgs) : ℕ → List Piece → List UInt8 → Prop where
  | nil {esp} : PiecesPrint a esp [] []
  | cons {esp piece rest out outs} (hpiece : piece.Prints a (a.arg esp) out)
      (hrest : PiecesPrint a (esp + piece.takes) rest outs) : PiecesPrint a esp (piece :: rest) (out ++ outs)

/-- The loop of `printf` over a piece prints it, and goes on behind it. -/
theorem printfFrom_piece (a : PrintfArgs) (piece : Piece) (rest : List UInt8) (esp : ℕ) :
    ∃ out, piece.Prints a (a.arg esp) out ∧
      a.printfFrom .text (piece.spelled ++ rest) esp =
        (a.printfFrom .text rest (esp + piece.takes)).map (out ++ ·) := by
  cases piece with
  | plain c hplain =>
    refine ⟨[c], .plain, ?_⟩
    rw [Piece.spelled, List.singleton_append, PrintfArgs.printfFrom, if_neg hplain]
    rfl
  | percent => exact ⟨[0x25], .percent, rfl⟩
  | hex => exact ⟨_, .hex (isNumeral_numeral (by decide) _), printfFrom_hex a rest esp⟩
  | alternate =>
    have hcanonical := isNumeral_numeral (by decide : 1 < 16) (a.arg esp).toNat
    have hfew := length_hexNumeral_le (a.arg esp)
    refine ⟨_, .alternate ?_ (fun d hd => ?_) ?_, printfFrom_alternate a rest esp⟩
    · rw [List.length_append, List.length_replicate]
      omega
    · rcases List.mem_append.mp hd with hzero | hdigit
      · rw [List.eq_of_mem_replicate hzero]
        decide
      · exact hcanonical.digit d hdigit
    · rw [value_padded, hcanonical.value]
  | unsigned => exact ⟨_, .unsigned (isNumeral_numeral (by decide) _), printfFrom_unsigned a rest esp⟩
  | signed =>
    refine ⟨_, ?_, printfFrom_signed a rest esp⟩
    rw [signedDecimal]
    split
    · exact .negative ‹_› (isNumeral_numeral (by decide) _)
    · exact .nonneg (Int.not_lt.mp ‹_›) (isNumeral_numeral (by decide) _)
  | char => exact ⟨[(a.arg esp).toUInt8], .char, rfl⟩
  | string => exact ⟨_, .string, rfl⟩

/-- The loop of `printf` prints all pieces of a format. -/
theorem printfFrom_pieces (a : PrintfArgs) (pieces : List Piece) (esp : ℕ) :
    ∃ out, PiecesPrint a esp pieces out ∧ a.printfFrom .text (pieces.flatMap Piece.spelled) esp = some out := by
  induction pieces generalizing esp with
  | nil => exact ⟨[], .nil, rfl⟩
  | cons piece rest ih =>
    obtain ⟨out, hpiece, hfrom⟩ := printfFrom_piece a piece (rest.flatMap Piece.spelled) esp
    obtain ⟨outs, hrest, hall⟩ := ih (esp + piece.takes)
    refine ⟨out ++ outs, .cons hpiece hrest, ?_⟩
    rw [List.flatMap_cons, hfrom, hall, Option.map_some]

/-- `itoa` writes the canonical numeral and nothing else, in every radix of the table, and `printf` prints
every format of text and conversions, with the canonical numerals of its arguments and every store inside
its local arrays. -/
theorem numberFormats_exact :
    (∀ (size buf : ℕ) (value radix : UInt32) (mem : Bytes), 2 ≤ radix.toNat → radix.toNat ≤ 36 →
      ∃ digits, IsNumeral radix.toNat value.toNat digits ∧
        (buf + digits.length < size → ∃ mem', itoa size value buf radix mem = some mem' ∧
          Spells (fun k => mem' (buf + k)) (digits.map digitChar) ∧
          ∀ i, i < buf ∨ buf + digits.length < i → mem' i = mem i)) ∧
    ∀ (a : PrintfArgs) (pieces : List Piece),
      ∃ out, PiecesPrint a 0 pieces out ∧
        a.printf (pieces.flatMap Piece.spelled) = some ((pieces.flatMap Piece.spelled).length, out) := by
  refine ⟨fun size buf value radix mem hradix hmax => ?_, fun a pieces => ?_⟩
  · exact ⟨_, isNumeral_numeral hradix value.toNat,
      fun hroom => itoa_numeral size buf value radix hradix hmax hroom mem⟩
  · obtain ⟨out, hprints, hfrom⟩ := printfFrom_pieces a pieces 0
    exact ⟨out, hprints, by rw [PrintfArgs.printf, hfrom, Option.map_some]⟩

end OsKernel

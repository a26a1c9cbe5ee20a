import LinuxBasedOS.Lib.Numbers

/-!
# printf

The format is the memory from its address on: its bytes, the terminator, and after the terminator
whatever follows. The arguments are the words above `format` on the stack. `Scanner` has the two
pointers of `printf`, the format bytes it has read and the characters it has given to `putc`. Every
call of `printf` has a number of turns for its loops, and `none` says that they were not enough.

`pieces` and `render` say what the comment over `printf` promises for a format. The scanner does it
unless the format ends inside a conversion: then the increment after the switch steps over the
terminator. `printf_prints_iff` says so for every format.
-/

namespace LinuxBasedOS.Lib

open Word Stores

/-! ## The code -/

/-- `puts` from index `index` on: the characters it prints. -/
def putsFrom (mem : Nat → UInt8) (s : Nat) : Nat → Nat → Option (List UInt8)
  | 0, _ => none
  | fuel + 1, index =>
    if mem (s + index) ≠ 0 then do
      let rest ← putsFrom mem s fuel (index + 1)
      some (mem (s + index) :: rest)
    else some []

/-- The loop of `%#x` that fills `conv_buf` with zeros up to index 8. -/
def padZeros : Nat → (Nat → UInt8) → Nat → Option (Nat → UInt8)
  | 0, _, _ => none
  | fuel + 1, convBuf, i =>
    if i < 8 then padZeros fuel (Function.update convBuf i 48) (i + 1) else some convBuf

/-- `case 'x'`. -/
def convertX (fuel : Nat) (convBuf : Nat → UInt8) (alternate : Bool) (word : UInt32) :
    Option (List UInt8) :=
  if alternate = false then do
    let convBuf ← itoa fuel convBuf word.toNat 0 16
    putsFrom convBuf 0 fuel 0
  else do
    let convBuf ← itoa fuel convBuf word.toNat 8 16
    let startingIndex ← strlenFrom convBuf 8 fuel 0
    let convBuf ← padZeros fuel convBuf startingIndex
    putsFrom convBuf startingIndex fuel 0

/-- `case 'u'`. -/
def convertU (fuel : Nat) (convBuf : Nat → UInt8) (word : UInt32) : Option (List UInt8) := do
  let convBuf ← itoa fuel convBuf word.toNat 0 10
  putsFrom convBuf 0 fuel 0

/-- `case 'd'`. -/
def convertD (fuel : Nat) (convBuf : Nat → UInt8) (word : UInt32) : Option (List UInt8) := do
  let value := i32 word.toNat
  let convBuf ←
    if value < 0 then itoa fuel (Function.update convBuf 0 45) (u32 (-value)) 1 10
    else itoa fuel convBuf (u32 value) 0 10
  putsFrom convBuf 0 fuel 0

/-- The switch over the conversion specifiers: what is printed, and by how much `esp` goes on. -/
def convert (fuel : Nat) (mem convBuf : Nat → UInt8) (c : UInt8) (alternate : Bool)
    (word : UInt32) : Option (List UInt8 × Nat) :=
  if c = 37 then some ([37], 0)
  else if c = 120 then (convertX fuel convBuf alternate word).map fun text => (text, 1)
  else if c = 117 then (convertU fuel convBuf word).map fun text => (text, 1)
  else if c = 100 then (convertD fuel convBuf word).map fun text => (text, 1)
  else if c = 99 then some ([UInt8.ofNat word.toNat], 1)
  else if c = 115 then (putsFrom mem word.toNat fuel 0).map fun text => (text, 1)
  else some ([], 0)

structure Scanner where
  /-- `buf - format` -/
  buf : Nat
  /-- the number of words taken from the stack -/
  esp : Nat
  reads : List Nat
  printed : List UInt8

/-- The byte at `buf` is read. -/
def Scanner.read (s : Scanner) : Scanner := { s with reads := s.reads ++ [s.buf] }

/-- From `format_char_switch` on while the character is `#`. -/
def formatCharSwitch (format : Nat → UInt8) : Nat → Scanner → Bool → Option (Scanner × Bool)
  | 0, _, _ => none
  | fuel + 1, s, alternate =>
    if format s.buf = 35 then
      formatCharSwitch format fuel { s.read with buf := s.buf + 1 } true
    else some (s.read, alternate)

/-- The loop of `printf`. `junk` has what is in `conv_buf` when the conversion at a place of the
format begins. -/
def printfLoop (format mem : Nat → UInt8) (args : Nat → UInt32) (junk : Nat → Nat → UInt8) :
    Nat → Scanner → Option Scanner
  | 0, _ => none
  | fuel + 1, s =>
    if format s.buf = 0 then some s.read
    else if format s.buf = 37 then do
      let (s, alternate) ← formatCharSwitch format fuel { s.read with buf := s.buf + 1 } false
      let (text, words) ←
        convert fuel mem (junk s.buf) (format s.buf) alternate (args s.esp)
      printfLoop format mem args junk fuel
        { s with buf := s.buf + 1, esp := s.esp + words, printed := s.printed ++ text }
    else
      printfLoop format mem args junk fuel
        { s.read with buf := s.buf + 1, printed := s.printed ++ [format s.buf] }

def printf (fuel : Nat) (format mem : Nat → UInt8) (args : Nat → UInt32)
    (junk : Nat → Nat → UInt8) : Option Scanner :=
  printfLoop format mem args junk fuel { buf := 0, esp := 0, reads := [], printed := [] }

/-! ## What is promised -/

inductive Piece where
  | literal (c : UInt8)
  | conversion (alternate : Bool) (c : UInt8)
  deriving DecidableEq, Repr

/-- Inside a conversion, and then whether it is the alternate one. -/
abbrev Mode := Option Bool

/-- Where the format is after one more character. -/
def Mode.next : Mode → UInt8 → Mode
  | none, c => if c = 37 then some false else none
  | some _, c => if c = 35 then some true else none

/-- The format ends inside a conversion: a `%`, with `#` after it or not, has no character. -/
def CutOff (mode : Mode) (fmt : List UInt8) : Prop := (fmt.foldl Mode.next mode).isSome

instance (mode : Mode) (fmt : List UInt8) : Decidable (CutOff mode fmt) :=
  inferInstanceAs (Decidable (_ = true))

/-- The literal characters and the conversions of a format. -/
def pieces : Mode → List UInt8 → List Piece
  | _, [] => []
  | none, c :: fmt => if c = 37 then pieces (some false) fmt else .literal c :: pieces none fmt
  | some alternate, c :: fmt =>
    if c = 35 then pieces (some true) fmt else .conversion alternate c :: pieces none fmt

/-- A number in decimal, with its sign if it is negative. -/
def decimal (value : Int) : List UInt8 :=
  if value < 0 then 45 :: numeral 10 value.natAbs else numeral 10 value.natAbs

/-- Eight hexadecimal digits, zero-padded on the left. -/
def paddedHex (value : Nat) : List UInt8 :=
  List.replicate (8 - (numeral 16 value).length) 48 ++ numeral 16 value

/-- The text of a piece, with the word that is its argument; `strings` has the strings at the
addresses. -/
def Piece.text (strings : Nat → List UInt8) (word : UInt32) : Piece → List UInt8
  | .literal c => [c]
  | .conversion alternate c =>
    if c = 37 then [37]
    else if c = 120 then if alternate then paddedHex word.toNat else numeral 16 word.toNat
    else if c = 117 then numeral 10 word.toNat
    else if c = 100 then decimal (i32 word.toNat)
    else if c = 99 then [UInt8.ofNat word.toNat]
    else if c = 115 then strings word.toNat
    else []

/-- The number of words a piece takes. -/
def Piece.words : Piece → Nat
  | .literal _ => 0
  | .conversion _ c => if c = 120 ∨ c = 117 ∨ c = 100 ∨ c = 99 ∨ c = 115 then 1 else 0

def render (strings : Nat → List UInt8) (args : Nat → UInt32) : Nat → List Piece → List UInt8
  | _, [] => []
  | k, piece :: rest => piece.text strings (args k) ++ render strings args (k + piece.words) rest

/-- The arguments of the `%s` conversions are strings. -/
def StringArgs (mem : Nat → UInt8) (strings : Nat → List UInt8) (args : Nat → UInt32) :
    Nat → List Piece → Prop
  | _, [] => True
  | k, piece :: rest =>
    ((∃ alternate, piece = .conversion alternate 115) →
      0 ∉ strings (args k).toNat ∧ HoldsAt mem (args k).toNat (strings (args k).toNat)) ∧
    StringArgs mem strings args (k + piece.words) rest

/-- `printf` comes to its end, reads nothing behind the terminator, and prints the text. -/
def PrintsFormat (format mem : Nat → UInt8) (args : Nat → UInt32) (junk : Nat → Nat → UInt8)
    (length : Nat) (text : List UInt8) : Prop :=
  ∃ turns, ∀ fuel ≥ turns, ∃ s, printf fuel format mem args junk = some s ∧
    (∀ i ∈ s.reads, i ≤ length) ∧ s.printed = text

/-! ## The conversions -/

section Conversions

variable {mem : Nat → UInt8} {text : List UInt8} {s fuel : Nat}

theorem putsFrom_eq (htext : 0 ∉ text) {index : Nat} (h : HoldsAt mem (s + index) text)
    (hfuel : text.length < fuel) : putsFrom mem s fuel index = some text := by
  induction text generalizing index fuel with
  | nil =>
    obtain ⟨fuel, rfl⟩ := Nat.exists_eq_add_one.mpr hfuel
    rw [putsFrom, if_neg (not_not.mpr (holdsAt_nil.mp h))]
  | cons c text ih =>
    obtain ⟨fuel, rfl⟩ := Nat.exists_eq_add_one.mpr (Nat.zero_lt_of_lt hfuel)
    obtain ⟨hfirst, hrest⟩ := holdsAt_cons.mp h
    rw [List.mem_cons, not_or] at htext
    rw [putsFrom, hfirst, if_pos (Ne.symm htext.1),
      ih htext.2 hrest (Nat.lt_of_succ_lt_succ hfuel), Option.bind_eq_bind, Option.bind_some]

/-- A number is converted to the beginning of `conv_buf` and printed from there. -/
theorem puts_itoa (convBuf : Nat → UInt8) {radix value : Nat} (hradix : 2 ≤ radix)
    (hradix' : radix ≤ 36) (hvalue : value < 4294967296) (hfuel : 32 < fuel) :
    (do
      let convBuf ← itoa fuel convBuf value 0 radix
      putsFrom convBuf 0 fuel 0) = some (numeral radix value) := by
  have hchars := numeral_ne_zero hradix hradix' value
  have hnumeral := numeral_isNumeral hradix hradix' hvalue
  rw [itoa_eq hradix hradix' hvalue hfuel, Option.bind_eq_bind, Option.bind_some,
    putsFrom_eq hchars (holdsAt_place convBuf 0 _) (hnumeral.length_le.trans_lt hfuel)]

theorem padZeros_eq (convBuf : Nat → UInt8) {i : Nat} (hi : i ≤ 8) (hfuel : 8 - i < fuel) :
    padZeros fuel convBuf i = some (place convBuf i (List.replicate (8 - i) 48)) := by
  induction fuel generalizing convBuf i with
  | zero => exact absurd hfuel (Nat.not_lt_zero _)
  | succ fuel ih =>
    rw [padZeros]
    rcases Nat.eq_or_lt_of_le hi with rfl | hlt
    · rw [if_neg (Nat.lt_irrefl 8), Nat.sub_self, List.replicate_zero, place_nil]
    · obtain ⟨rest, hrest⟩ : ∃ rest, 8 - i = rest + 1 := Nat.exists_eq_add_one.mpr (by omega)
      have hnext : 8 - (i + 1) = rest := by omega
      rw [if_pos hlt, ih _ hlt (by omega), hrest, hnext, List.replicate_succ, place_cons]

theorem length_hex_le (word : UInt32) : (numeral 16 word.toNat).length ≤ 8 := by
  have hlt := word.toNat_lt
  unfold numeral
  split_ifs
  · decide
  · rw [List.length_map, List.length_reverse]
    exact length_digits_le (by decide) hlt

/-- The zeros come to stand directly before the digits. -/
theorem convertX_eq (convBuf : Nat → UInt8) (alternate : Bool) (word : UInt32)
    (hfuel : 32 < fuel) :
    convertX fuel convBuf alternate word =
      some (if alternate then paddedHex word.toNat else numeral 16 word.toNat) := by
  unfold convertX
  cases alternate with
  | false => exact puts_itoa convBuf (by decide) (by decide) word.toNat_lt hfuel
  | true =>
    have hchars := numeral_ne_zero (show 2 ≤ 16 by decide) (by decide) word.toNat
    have hlength := length_hex_le word
    have hitoa := @itoa_eq 16 word.toNat fuel (by decide) (by decide) word.toNat_lt hfuel convBuf
    have hdigits := holdsAt_place convBuf 8 (numeral 16 word.toNat)
    have hlen := @strlenFrom_eq _ _ 8 fuel hchars 0 hdigits (by omega)
    have hpadded : 0 ∉ paddedHex word.toNat := by
      rw [paddedHex, List.mem_append, not_or]
      exact ⟨fun h => absurd (List.eq_of_mem_replicate h) (by decide), hchars⟩
    rw [if_neg (by decide), hitoa, Option.bind_eq_bind, Option.bind_some, hlen, Nat.zero_add,
      Option.bind_eq_bind, Option.bind_some, padZeros_eq _ hlength (by omega),
      Option.bind_some, putsFrom_eq hpadded]
    · rfl
    · refine holdsAt_place_append _ _ ?_
      rw [List.length_replicate, Nat.add_sub_cancel' hlength]
      exact hdigits
    · rw [paddedHex, List.length_append, List.length_replicate]
      omega

theorem convertU_eq (convBuf : Nat → UInt8) (word : UInt32) (hfuel : 32 < fuel) :
    convertU fuel convBuf word = some (numeral 10 word.toNat) :=
  puts_itoa convBuf (by decide) (by decide) word.toNat_lt hfuel

/-- The smallest integer has its own negation, but as an unsigned number it is right. -/
theorem convertD_eq (convBuf : Nat → UInt8) (word : UInt32) (hfuel : 33 < fuel) :
    convertD fuel convBuf word = some (decimal (i32 word.toNat)) := by
  have hrange : -2147483648 ≤ i32 word.toNat ∧ i32 word.toNat < 2147483648 := by
    have hlt := u32_lt word.toNat
    unfold i32
    split <;> omega
  have hvalue : (i32 word.toNat).natAbs < 4294967296 := by omega
  have hchars := numeral_ne_zero (show 2 ≤ 10 by decide) (by decide) (i32 word.toNat).natAbs
  have hnumeral := numeral_isNumeral (show 2 ≤ 10 by decide) (by decide) hvalue
  have hle := hnumeral.length_le
  unfold convertD decimal
  dsimp only
  by_cases hneg : i32 word.toNat < 0
  · have habs : u32 (-i32 word.toNat) = (i32 word.toNat).natAbs := by
      unfold u32
      omega
    have hsign : 0 ∉ 45 :: numeral 10 (i32 word.toNat).natAbs := by
      rw [List.mem_cons, not_or]
      exact ⟨by decide, hchars⟩
    rw [if_pos hneg, if_pos hneg, habs, itoa_eq (by decide) (by decide) hvalue (by omega),
      Option.bind_eq_bind, Option.bind_some, ← place_cons, ← List.cons_append,
      putsFrom_eq hsign (holdsAt_place convBuf 0 _)]
    rw [List.length_cons]
    omega
  · have habs : u32 (i32 word.toNat) = (i32 word.toNat).natAbs := by
      unfold u32
      omega
    rw [if_neg hneg, if_neg hneg, habs]
    exact puts_itoa convBuf (by decide) (by decide) hvalue (by omega)

/-- **One conversion.** -/
theorem convert_eq {strings : Nat → List UInt8} (convBuf : Nat → UInt8) (c : UInt8)
    (alternate : Bool) (word : UInt32) (hfuel : 33 < fuel)
    (hstring : c = 115 → 0 ∉ strings word.toNat ∧
      HoldsAt mem word.toNat (strings word.toNat) ∧ (strings word.toNat).length < fuel) :
    convert fuel mem convBuf c alternate word =
      some ((Piece.conversion alternate c).text strings word,
        (Piece.conversion alternate c).words) := by
  unfold convert Piece.text Piece.words
  dsimp only
  rw [convertX_eq convBuf alternate word (by omega), convertU_eq convBuf word (by omega),
    convertD_eq convBuf word hfuel]
  by_cases hs : c = 115
  · obtain ⟨hchars, hholds, hlength⟩ := hstring hs
    subst hs
    rw [putsFrom_eq hchars hholds hlength]
    rfl
  · split_ifs <;> simp_all

end Conversions

/-! ## Formats that end inside a conversion -/

/-- After a `%` there are `#`, and then the end or another character. -/
theorem exists_hashes (fmt : List UInt8) :
    (∃ n, fmt = List.replicate n 35) ∨
      ∃ n c rest, fmt = List.replicate n 35 ++ c :: rest ∧ c ≠ 35 := by
  induction fmt with
  | nil => exact Or.inl ⟨0, rfl⟩
  | cons c fmt ih =>
    by_cases hc : c = 35
    · subst hc
      rcases ih with ⟨n, rfl⟩ | ⟨n, d, rest, rfl, hd⟩
      · exact Or.inl ⟨n + 1, rfl⟩
      · exact Or.inr ⟨n + 1, d, rest, rfl, hd⟩
    · exact Or.inr ⟨0, c, fmt, rfl, hc⟩

theorem cutOff_hashes (n : Nat) (alternate : Bool) :
    CutOff (some alternate) (List.replicate n 35) := by
  induction n generalizing alternate with
  | zero => rfl
  | succ n ih => exact ih true

theorem cutOff_conversion (n : Nat) (alternate : Bool) {c : UInt8} (hc : c ≠ 35)
    (rest : List UInt8) :
    CutOff (some alternate) (List.replicate n 35 ++ c :: rest) ↔ CutOff none rest := by
  induction n generalizing alternate with
  | zero =>
    have hnext : Mode.next (some alternate) c = none := if_neg hc
    unfold CutOff
    rw [List.replicate_zero, List.nil_append, List.foldl_cons, hnext]
  | succ n ih => exact ih true

theorem cutOff_literal {c : UInt8} (hc : c ≠ 37) (rest : List UInt8) :
    CutOff none (c :: rest) ↔ CutOff none rest := by
  have hnext : Mode.next none c = none := if_neg hc
  unfold CutOff
  rw [List.foldl_cons, hnext]

theorem pieces_conversion (n : Nat) (alternate : Bool) {c : UInt8} (hc : c ≠ 35)
    (rest : List UInt8) :
    pieces (some alternate) (List.replicate n 35 ++ c :: rest) =
      .conversion (alternate || decide (0 < n)) c :: pieces none rest := by
  induction n generalizing alternate with
  | zero =>
    have hpieces : pieces (some alternate) (c :: rest) =
        .conversion alternate c :: pieces none rest := if_neg hc
    rw [List.replicate_zero, List.nil_append, hpieces, decide_eq_false (Nat.lt_irrefl 0),
      Bool.or_false]
  | succ n ih =>
    have hpieces : pieces (some alternate) (List.replicate (n + 1) 35 ++ c :: rest) =
        pieces (some true) (List.replicate n 35 ++ c :: rest) := if_pos rfl
    rw [hpieces, ih, decide_eq_true (Nat.succ_pos n), Bool.or_true, Bool.true_or]

/-! ## The scanner -/

section Scanning

variable {format mem : Nat → UInt8} {args : Nat → UInt32} {junk : Nat → Nat → UInt8}
variable {strings : Nat → List UInt8} {s s' : Scanner} {fuel n : Nat}

theorem formatCharSwitch_eq (hhashes : ∀ j < n, format (s.buf + j) = 35)
    (hchar : format (s.buf + n) ≠ 35) (alternate : Bool) :
    formatCharSwitch format fuel s alternate =
      if n < fuel then
        some ({ s with buf := s.buf + n, reads := s.reads ++ List.range' s.buf (n + 1) },
          alternate || decide (0 < n))
      else none := by
  induction n generalizing s fuel alternate with
  | zero =>
    cases fuel with
    | zero => rfl
    | succ fuel =>
      have hfirst : format s.buf ≠ 35 := hchar
      rw [formatCharSwitch, if_neg hfirst, if_pos (Nat.succ_pos fuel),
        decide_eq_false (Nat.lt_irrefl 0), Bool.or_false]
      rfl
  | succ n ih =>
    cases fuel with
    | zero => rfl
    | succ fuel =>
      have hfirst : format s.buf = 35 := hhashes 0 (Nat.succ_pos n)
      have hhashes' : ∀ j < n, format (s.buf + 1 + j) = 35 := by
        intro j hj
        rw [Nat.add_assoc, Nat.add_comm 1]
        exact hhashes (j + 1) (Nat.succ_lt_succ hj)
      have hchar' : format (s.buf + 1 + n) ≠ 35 := by
        rw [Nat.add_assoc, Nat.add_comm 1]
        exact hchar
      have hnext := @ih { s.read with buf := s.buf + 1 } fuel hhashes' hchar' true
      rw [formatCharSwitch, if_pos hfirst, hnext]
      refine if_congr Nat.succ_lt_succ_iff.symm ?_ rfl
      rw [decide_eq_true (Nat.succ_pos n), Bool.or_true, Bool.true_or]
      dsimp only [Scanner.read]
      rw [List.append_assoc, List.singleton_append, ← List.range'_succ, Nat.add_assoc s.buf,
        Nat.add_comm 1]

theorem printfLoop_literal {c : UInt8} (hc : format s.buf = c) (hend : c ≠ 0) (hpercent : c ≠ 37) :
    printfLoop format mem args junk (fuel + 1) s =
      printfLoop format mem args junk fuel
        { s.read with buf := s.buf + 1, printed := s.printed ++ [c] } := by
  rw [printfLoop, hc, if_neg hend, if_neg hpercent]

/-- The scanner after a conversion with `n` times `#`. -/
def Scanner.afterConversion (s : Scanner) (n words : Nat) (text : List UInt8) : Scanner where
  buf := s.buf + 1 + n + 1
  esp := s.esp + words
  reads := s.reads ++ List.range' s.buf (n + 2)
  printed := s.printed ++ text

theorem printfLoop_conversion (hpercent : format s.buf = 37)
    (hhashes : ∀ j < n, format (s.buf + 1 + j) = 35) (hchar : format (s.buf + 1 + n) ≠ 35) :
    printfLoop format mem args junk (fuel + 1) s =
      if n < fuel then
        (convert fuel mem (junk (s.buf + 1 + n)) (format (s.buf + 1 + n)) (decide (0 < n))
          (args s.esp)).bind fun result =>
          printfLoop format mem args junk fuel (s.afterConversion n result.2 result.1)
      else none := by
  have hscan := @formatCharSwitch_eq format { s.read with buf := s.buf + 1 } fuel n hhashes hchar false
  rw [printfLoop, hpercent, if_neg (by decide), if_pos rfl, hscan]
  split_ifs with hfuel
  · rw [Option.bind_eq_bind, Option.bind_some]
    dsimp only [Scanner.read]
    rw [List.append_assoc, List.singleton_append, ← List.range'_succ, Bool.false_or]
    rfl
  · rfl

/-- The bytes of a conversion in the format. -/
theorem HoldsAt.conversion {rest : List UInt8} {addr : Nat}
    (h : HoldsAt format addr (37 :: (List.replicate n 35 ++ rest))) :
    format addr = 37 ∧ (∀ j < n, format (addr + 1 + j) = 35) ∧
      HoldsAt format (addr + 1 + n) rest := by
  obtain ⟨hpercent, hrest⟩ := holdsAt_cons.mp h
  have hlength : (List.replicate n (35 : UInt8) ++ rest).length = n + rest.length := by
    rw [List.length_append, List.length_replicate]
  have hafter := hrest.drop (n := n) (by omega)
  rw [List.drop_left' List.length_replicate] at hafter
  refine ⟨hpercent, ?_, hafter⟩
  intro j hj
  have hinside : j < (List.replicate n (35 : UInt8)).length := by rwa [List.length_replicate]
  rw [hrest j (by omega), cstr, List.getD_eq_getElem?_getD, List.getElem?_append_left hinside,
    List.getElem?_replicate_of_lt hj, Option.getD_some]

/-- One turn of the loop prints the first piece of the format and goes to the rest of it. -/
structure Advances (format mem : Nat → UInt8) (args : Nat → UInt32) (junk : Nat → Nat → UInt8)
    (strings : Nat → List UInt8) (s : Scanner) (fmt : List UInt8) (s' : Scanner)
    (rest : List UInt8) (piece : Piece) : Prop where
  run : ∃ turns, ∀ fuel ≥ turns,
    printfLoop format mem args junk (fuel + 1) s = printfLoop format mem args junk fuel s'
  pieces_eq : pieces none fmt = piece :: pieces none rest
  cutOff_iff : CutOff none fmt ↔ CutOff none rest
  rest_lt : rest.length < fmt.length
  rest_ne : 0 ∉ rest
  holds : HoldsAt format s'.buf rest
  buf_eq : s'.buf + rest.length = s.buf + fmt.length
  esp_eq : s'.esp = s.esp + piece.words
  reads : ∀ i ∈ s'.reads, i ∈ s.reads ∨ i ≤ s.buf + fmt.length
  printed_eq : s'.printed = s.printed ++ piece.text strings (args s.esp)

theorem advances_literal {c : UInt8} {rest : List UInt8} (hc : c ≠ 37) (hfmt : 0 ∉ c :: rest)
    (h : HoldsAt format s.buf (c :: rest)) :
    Advances format mem args junk strings s (c :: rest)
      { s.read with buf := s.buf + 1, printed := s.printed ++ [c] } rest (.literal c) := by
  obtain ⟨hfirst, hrest⟩ := holdsAt_cons.mp h
  rw [List.mem_cons, not_or] at hfmt
  refine ⟨⟨0, fun fuel _ => printfLoop_literal hfirst (Ne.symm hfmt.1) hc⟩, if_neg hc,
    cutOff_literal hc rest, Nat.lt_succ_self _, hfmt.2, hrest, ?_, rfl, ?_, rfl⟩
  · rw [List.length_cons, Nat.add_assoc, Nat.add_comm 1]
  · intro i hi
    rcases List.mem_append.mp hi with hbefore | hhere
    · exact Or.inl hbefore
    · rw [List.mem_singleton] at hhere
      exact Or.inr (by omega)

theorem advances_conversion {c : UInt8} {rest : List UInt8} (hc : c ≠ 35)
    (hfmt : 0 ∉ 37 :: (List.replicate n 35 ++ c :: rest))
    (h : HoldsAt format s.buf (37 :: (List.replicate n 35 ++ c :: rest)))
    (hstrings : StringArgs mem strings args s.esp
      (pieces none (37 :: (List.replicate n 35 ++ c :: rest)))) :
    ∃ s', Advances format mem args junk strings s (37 :: (List.replicate n 35 ++ c :: rest)) s' rest
      (.conversion (decide (0 < n)) c) := by
  obtain ⟨hpercent, hhashes, hafter⟩ := h.conversion
  obtain ⟨hchar, hrest⟩ := holdsAt_cons.mp hafter
  have hpieces : pieces none (37 :: (List.replicate n 35 ++ c :: rest)) =
      .conversion (decide (0 < n)) c :: pieces none rest := by
    have hpercent : pieces none (37 :: (List.replicate n 35 ++ c :: rest)) =
        pieces (some false) (List.replicate n 35 ++ c :: rest) := if_pos rfl
    rw [hpercent, pieces_conversion n false hc, Bool.false_or]
  have hlength : (37 :: (List.replicate n 35 ++ c :: rest)).length = n + rest.length + 2 := by
    rw [List.length_cons, List.length_append, List.length_replicate, List.length_cons]
    omega
  rw [hpieces] at hstrings
  refine ⟨s.afterConversion n (Piece.conversion (decide (0 < n)) c).words
    ((Piece.conversion (decide (0 < n)) c).text strings (args s.esp)),
    ⟨n + 34 + (strings (args s.esp).toNat).length, ?_⟩, hpieces, cutOff_conversion n false hc rest,
    ?_, ?_, hrest, ?_, rfl, ?_, rfl⟩
  · intro fuel hfuel
    have hconvert := @convert_eq mem fuel strings (junk (s.buf + 1 + n)) c (decide (0 < n))
      (args s.esp) (by omega) (by
        intro hs
        obtain ⟨hchars, hholds⟩ := hstrings.1 ⟨_, congrArg _ hs⟩
        exact ⟨hchars, hholds, by omega⟩)
    rw [printfLoop_conversion hpercent hhashes (hchar.symm ▸ hc), if_pos (by omega), hchar,
      hconvert, Option.bind_some]
  · omega
  · intro hzero
    exact hfmt (List.mem_cons_of_mem _ (List.mem_append_right _ (List.mem_cons_of_mem _ hzero)))
  · rw [hlength]
    dsimp only [Scanner.afterConversion]
    omega
  · intro i hi
    rcases List.mem_append.mp hi with hold | hnew
    · exact Or.inl hold
    · rw [List.mem_range'_1] at hnew
      exact Or.inr (by omega)

/-- A format that is not empty has a first piece, or nothing but a conversion that is cut off. -/
theorem exists_advances {fmt : List UInt8} (hne : fmt ≠ []) (hfmt : 0 ∉ fmt)
    (h : HoldsAt format s.buf fmt)
    (hstrings : StringArgs mem strings args s.esp (pieces none fmt)) :
    (∃ n, fmt = 37 :: List.replicate n 35) ∨
      ∃ s' rest piece, Advances format mem args junk strings s fmt s' rest piece := by
  match fmt, hne with
  | c :: fmt, _ =>
    by_cases hc : c = 37
    · subst hc
      rcases exists_hashes fmt with ⟨n, rfl⟩ | ⟨n, c, rest, rfl, hhash⟩
      · exact Or.inl ⟨n, rfl⟩
      · obtain ⟨s', hadvances⟩ := @advances_conversion format mem args junk strings s n c rest hhash hfmt h hstrings
        exact Or.inr ⟨s', rest, _, hadvances⟩
    · exact Or.inr ⟨_, fmt, _, advances_literal hc hfmt h⟩

theorem Advances.stringArgs {fmt rest : List UInt8} {piece : Piece}
    (h : Advances format mem args junk strings s fmt s' rest piece)
    (hstrings : StringArgs mem strings args s.esp (pieces none fmt)) :
    StringArgs mem strings args s'.esp (pieces none rest) := by
  rw [h.pieces_eq] at hstrings
  rw [h.esp_eq]
  exact hstrings.2

/-- A format that does not end inside a conversion is printed piece by piece. -/
theorem printfLoop_of_not_cutOff (fmt : List UInt8) (hfmt : 0 ∉ fmt)
    (h : HoldsAt format s.buf fmt) (hcut : ¬ CutOff none fmt)
    (hstrings : StringArgs mem strings args s.esp (pieces none fmt)) :
    ∃ turns, ∀ fuel ≥ turns, ∃ s', printfLoop format mem args junk fuel s = some s' ∧
      (∀ i ∈ s'.reads, i ∈ s.reads ∨ i ≤ s.buf + fmt.length) ∧
      s'.printed = s.printed ++ render strings args s.esp (pieces none fmt) := by
  induction hlen : fmt.length using Nat.strong_induction_on generalizing fmt s with
  | _ len ih =>
    subst hlen
    by_cases hnil : fmt = []
    · subst hnil
      refine ⟨1, ?_⟩
      intro fuel hfuel
      obtain ⟨fuel, rfl⟩ := Nat.exists_eq_add_one.mpr hfuel
      refine ⟨s.read, ?_, ?_, (List.append_nil _).symm⟩
      · rw [printfLoop, if_pos (holdsAt_nil.mp h)]
      · intro i hi
        rcases List.mem_append.mp hi with hold | hnew
        · exact Or.inl hold
        · exact Or.inr (List.mem_singleton.mp hnew).le
    · rcases @exists_advances format mem args junk strings s fmt hnil hfmt h hstrings with
        ⟨n, rfl⟩ | ⟨s₁, rest, piece, hadvances⟩
      · exact absurd (cutOff_hashes n false) hcut
      · obtain ⟨turns, hrun⟩ := hadvances.run
        obtain ⟨turns', hrest⟩ := ih rest.length hadvances.rest_lt rest hadvances.rest_ne
          hadvances.holds (fun hrest => hcut (hadvances.cutOff_iff.mpr hrest))
          (hadvances.stringArgs hstrings) rfl
        refine ⟨turns + turns' + 1, ?_⟩
        intro fuel hfuel
        obtain ⟨fuel, rfl⟩ := Nat.exists_eq_add_one.mpr (Nat.zero_lt_of_lt hfuel)
        obtain ⟨s', hend, hreads, hprinted⟩ := hrest fuel (by omega)
        refine ⟨s', ?_, ?_, ?_⟩
        · rw [hrun fuel (by omega), hend]
        · intro i hi
          rcases hreads i hi with hold | hnew
          · exact hadvances.reads i hold
          · exact Or.inr (hadvances.buf_eq ▸ hnew)
        · rw [hprinted, hadvances.printed_eq, hadvances.pieces_eq, hadvances.esp_eq, render,
            List.append_assoc]

theorem formatCharSwitch_reads {alternate alternate' : Bool}
    (h : formatCharSwitch format fuel s alternate = some (s', alternate')) :
    ∀ i ∈ s.reads, i ∈ s'.reads := by
  induction fuel generalizing s alternate with
  | zero => cases h
  | succ fuel ih =>
    rw [formatCharSwitch] at h
    split_ifs at h
    · intro i hi
      exact ih h i (List.mem_append_left _ hi)
    · cases h
      intro i hi
      exact List.mem_append_left _ hi

/-- What has been read stays read, and the loop begins by reading. -/
theorem printfLoop_reads (h : printfLoop format mem args junk fuel s = some s') :
    ∀ i ∈ s.read.reads, i ∈ s'.reads := by
  induction fuel generalizing s with
  | zero => cases h
  | succ fuel ih =>
    rw [printfLoop] at h
    split_ifs at h
    · cases h
      intro i hi
      exact hi
    · rw [Option.bind_eq_bind, Option.bind_eq_some_iff] at h
      obtain ⟨⟨s₁, alternate⟩, hscan, h⟩ := h
      rw [Option.bind_eq_bind, Option.bind_eq_some_iff] at h
      obtain ⟨result, -, h⟩ := h
      intro i hi
      exact ih h i (List.mem_append_left _ (formatCharSwitch_reads hscan i hi))
    · intro i hi
      exact ih h i (List.mem_append_left _ hi)

/-- At a conversion that is cut off nothing is printed, and the loop goes on after the
terminator. -/
theorem printfLoop_cut (h : HoldsAt format s.buf (37 :: List.replicate n 35))
    (hrun : printfLoop format mem args junk fuel s = some s') :
    s.buf + (37 :: List.replicate n 35 : List UInt8).length + 1 ∈ s'.reads := by
  rw [← List.append_nil (List.replicate n 35)] at h
  obtain ⟨hpercent, hhashes, hafter⟩ := h.conversion
  have hend : format (s.buf + 1 + n) = 0 := holdsAt_nil.mp hafter
  cases fuel with
  | zero => cases hrun
  | succ fuel =>
    rw [printfLoop_conversion hpercent hhashes (hend.symm ▸ by decide), hend] at hrun
    split_ifs at hrun
    rw [Option.bind_eq_some_iff] at hrun
    obtain ⟨result, -, hrest⟩ := hrun
    have hnext : s.buf + 1 + n + 1 ∈ s'.reads :=
      printfLoop_reads hrest _ (List.mem_append_right _ (List.mem_singleton_self _))
    rw [List.length_cons, List.length_replicate, Nat.add_comm n, ← Nat.add_assoc]
    exact hnext

theorem printfLoop_of_cutOff (fmt : List UInt8) (hfmt : 0 ∉ fmt)
    (h : HoldsAt format s.buf fmt) (hcut : CutOff none fmt)
    (hstrings : StringArgs mem strings args s.esp (pieces none fmt)) :
    ∃ turns, ∀ fuel ≥ turns, ∀ s', printfLoop format mem args junk fuel s = some s' →
      s.buf + fmt.length + 1 ∈ s'.reads := by
  induction hlen : fmt.length using Nat.strong_induction_on generalizing fmt s with
  | _ len ih =>
    subst hlen
    have hne : fmt ≠ [] := by
      rintro rfl
      exact absurd hcut (by decide)
    rcases @exists_advances format mem args junk strings s fmt hne hfmt h hstrings with
      ⟨n, rfl⟩ | ⟨s₁, rest, piece, hadvances⟩
    · exact ⟨0, fun fuel _ s' hrun => printfLoop_cut h hrun⟩
    · obtain ⟨turns, hrun⟩ := hadvances.run
      obtain ⟨turns', hrest⟩ := ih rest.length hadvances.rest_lt rest hadvances.rest_ne
        hadvances.holds (hadvances.cutOff_iff.mp hcut) (hadvances.stringArgs hstrings) rfl
      refine ⟨turns + turns' + 1, ?_⟩
      intro fuel hfuel s' hend
      obtain ⟨fuel, rfl⟩ := Nat.exists_eq_add_one.mpr (Nat.zero_lt_of_lt hfuel)
      rw [hrun fuel (by omega)] at hend
      rw [← hadvances.buf_eq]
      exact hrest fuel (by omega) s' hend

end Scanning

section Formats

variable {format mem : Nat → UInt8} {args : Nat → UInt32} {strings : Nat → List UInt8}
variable {fmt : List UInt8}

theorem printsFormat_of_not_cutOff (junk : Nat → Nat → UInt8) (hfmt : 0 ∉ fmt)
    (h : HoldsAt format 0 fmt) (hcut : ¬ CutOff none fmt)
    (hstrings : StringArgs mem strings args 0 (pieces none fmt)) :
    PrintsFormat format mem args junk fmt.length (render strings args 0 (pieces none fmt)) := by
  obtain ⟨turns, hrun⟩ := @printfLoop_of_not_cutOff format mem args junk strings
    { buf := 0, esp := 0, reads := [], printed := [] } fmt hfmt h hcut hstrings
  refine ⟨turns, ?_⟩
  intro fuel hfuel
  obtain ⟨s, hend, hreads, hprinted⟩ := hrun fuel hfuel
  refine ⟨s, hend, ?_, hprinted⟩
  intro i hi
  rcases hreads i hi with hnone | hle
  · exact absurd hnone List.not_mem_nil
  · rw [Nat.zero_add] at hle
    exact hle

/-- **printf.** For every format, whatever stands behind its terminator, and arguments that are
strings where the format asks for one, `printf` comes to its end without reading behind the
terminator, and prints the literal characters and the conversions in order, exactly when the format
does not end inside a conversion. -/
theorem printf_prints_iff (junk : Nat → Nat → UInt8) (hfmt : 0 ∉ fmt) (h : HoldsAt format 0 fmt)
    (hstrings : StringArgs mem strings args 0 (pieces none fmt)) :
    PrintsFormat format mem args junk fmt.length (render strings args 0 (pieces none fmt)) ↔
      ¬ CutOff none fmt := by
  constructor
  · rintro ⟨turns, hprints⟩ hcut
    obtain ⟨turns', hreads⟩ := @printfLoop_of_cutOff format mem args junk strings
      { buf := 0, esp := 0, reads := [], printed := [] } fmt hfmt h hcut hstrings
    obtain ⟨s, hrun, hwithin, -⟩ := hprints (turns + turns') (Nat.le_add_right _ _)
    have hbehind := hwithin _ (hreads (turns + turns') (Nat.le_add_left _ _) s hrun)
    dsimp only at hbehind
    omega
  · intro hcut
    exact printsFormat_of_not_cutOff junk hfmt h hcut hstrings

end Formats

/-- A string and a number: `%s%#x`. -/
theorem printf_prints_string_and_hex :
    PrintsFormat (cstr [37, 115, 37, 35, 120]) (place (fun _ => 0) 100 [104, 105])
      (fun k => if k = 0 then 100 else 255) (fun _ _ => 7) 5
      [104, 105, 48, 48, 48, 48, 48, 48, 70, 70] := by
  have hstrings : StringArgs (place (fun _ => 0) 100 [104, 105]) (fun _ => [104, 105])
      (fun k => if k = 0 then 100 else 255) 0 (pieces none [37, 115, 37, 35, 120]) := by
    refine ⟨fun _ => ⟨by decide, by decide⟩, ?_, trivial⟩
    rintro ⟨alternate, hpiece⟩
    cases hpiece
  have htext : render (fun _ => [104, 105]) (fun k => if k = 0 then 100 else 255) 0
      (pieces none [37, 115, 37, 35, 120]) = [104, 105, 48, 48, 48, 48, 48, 48, 70, 70] := by
    decide
  rw [← htext]
  exact (printf_prints_iff (fun _ _ => 7) (by decide) (holdsAt_cstr _) hstrings).mpr (by decide)

/-- The format `%`, with an `A` behind its terminator: the `A` is printed. -/
theorem printf_cut_off_prints_behind :
    ¬ PrintsFormat (cstr [37, 0, 65]) (fun _ => 0) (fun _ => 0) (fun _ _ => 0) 1
        (render (fun _ => []) (fun _ => 0) 0 (pieces none [37])) ∧
      (printf 4 (cstr [37, 0, 65]) (fun _ => 0) (fun _ => 0) fun _ _ => 0).map Scanner.printed =
        some [65] := by
  have h : HoldsAt (cstr [37, 0, 65]) 0 (37 :: List.replicate 0 35) := by decide
  refine ⟨?_, by decide⟩
  rintro ⟨turns, hprints⟩
  obtain ⟨s, hrun, hwithin, -⟩ := hprints turns (Nat.le_refl turns)
  exact absurd (hwithin _ (printfLoop_cut h hrun)) (by decide)

/-! ## Numbers and back -/

theorem numeralValue_pad (radix k : Nat) (text : List UInt8) :
    numeralValue radix (List.replicate k 48 ++ text) = numeralValue radix text := by
  induction k with
  | zero => rfl
  | succ k ih =>
    have hzero : 0 * radix + digitValue 48 = 0 := by
      rw [Nat.zero_mul]
      rfl
    unfold numeralValue at ih ⊢
    rw [List.replicate_succ, List.cons_append, List.foldl_cons, hzero, ih]

/-- Eight digits with the value of the word. -/
theorem paddedHex_spec (word : UInt32) :
    (paddedHex word.toNat).length = 8 ∧
      (∀ c ∈ paddedHex word.toNat, c ∈ lookup ∧ digitValue c < 16) ∧
      numeralValue 16 (paddedHex word.toNat) = word.toNat := by
  have hnumeral := numeral_isNumeral (show 2 ≤ 16 by decide) (by decide) word.toNat_lt
  have hlength := length_hex_le word
  unfold paddedHex
  refine ⟨?_, ?_, ?_⟩
  · rw [List.length_append, List.length_replicate]
    omega
  · intro c hc
    rcases List.mem_append.mp hc with hzero | hdigit
    · rw [List.eq_of_mem_replicate hzero]
      decide
    · exact ⟨hnumeral.digit_mem c hdigit, hnumeral.digit_lt c hdigit⟩
  · rw [numeralValue_pad, hnumeral.value_eq]

/-- **Numbers as text.** For every word and every radix from 2 to 36, `itoa` and `ece391_itoa` come
to their end and leave the same memory, with a numeral of the word at `buf`; and `%#x` prints eight
hexadecimal digits with the value of the word. -/
theorem itoa_numeral (mem : Nat → UInt8) (buf : Nat) (value : UInt32) {radix fuel : Nat}
    (hradix : 2 ≤ radix) (hradix' : radix ≤ 36) (hfuel : 32 < fuel) :
    (∃ mem' text, itoa fuel mem value.toNat buf radix = some mem' ∧
      ece391Itoa fuel mem value.toNat buf radix = some mem' ∧
      HoldsAt mem' buf text ∧ 0 ∉ text ∧ IsNumeral radix value.toNat text) ∧
    ∀ (format : Nat → UInt8) (args : Nat → UInt32) (junk : Nat → Nat → UInt8), args 0 = value →
      HoldsAt format 0 [37, 35, 120] →
      ∃ digits, digits.length = 8 ∧ (∀ c ∈ digits, c ∈ lookup ∧ digitValue c < 16) ∧
        numeralValue 16 digits = value.toNat ∧ PrintsFormat format mem args junk 3 digits := by
  refine ⟨⟨place mem buf (numeral radix value.toNat ++ [0]), numeral radix value.toNat,
    itoa_eq hradix hradix' value.toNat_lt hfuel mem buf,
    ece391Itoa_eq hradix hradix' value.toNat_lt hfuel mem buf, holdsAt_place mem buf _,
    numeral_ne_zero hradix hradix' _, numeral_isNumeral hradix hradix' value.toNat_lt⟩, ?_⟩
  intro format args junk hvalue hformat
  subst hvalue
  obtain ⟨hlength, hdigits, hsame⟩ := paddedHex_spec (args 0)
  refine ⟨paddedHex (args 0).toNat, hlength, hdigits, hsame, ?_⟩
  have hstrings : StringArgs mem (fun _ => []) args 0 (pieces none [37, 35, 120]) := by
    refine ⟨?_, trivial⟩
    rintro ⟨alternate, hpiece⟩
    cases hpiece
  have hprints := printsFormat_of_not_cutOff junk (by decide) hformat (by decide) hstrings
  have htext : render (fun _ => []) args 0 (pieces none [37, 35, 120]) =
      paddedHex (args 0).toNat := List.append_nil _
  rw [htext] at hprints
  exact hprints

/-- `0xBEEF` in hexadecimal. -/
theorem itoa_numeral_beef :
    ∃ mem' text, itoa 33 (fun _ => 1) 48879 500 16 = some mem' ∧ HoldsAt mem' 500 text ∧
      IsNumeral 16 48879 text := by
  obtain ⟨⟨mem', text, hitoa, -, hholds, -, hnumeral⟩, -⟩ :=
    itoa_numeral (fun _ => 1) 500 48879 (show 2 ≤ 16 by decide) (by decide) (show 32 < 33 by decide)
  exact ⟨mem', text, hitoa, hholds, hnumeral⟩

end LinuxBasedOS.Lib

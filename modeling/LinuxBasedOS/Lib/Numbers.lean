import LinuxBasedOS.Base.Stores
import LinuxBasedOS.Base.Word
import LinuxBasedOS.Lib.CString
import Mathlib.Data.List.Induction
import Mathlib.Data.Nat.Digits.Lemmas

/-!
# Numbers as text: `itoa`

`itoa` of `lib.c` and its copy `ece391_itoa` for user programs store the digits of a number from
the lowest on and then reverse the string in place. Every loop runs with a number of turns, and
`none` says that the turns were not enough.

`numeral` is the text that should be there. `itoa_eq` says that it is, and that nothing else has
been written: the digit loop stores the digits in their order, `strlen` finds their number, and the
exchange of the two ends carries the reversal inwards. `numeral_isNumeral` says what a numeral is
without a loop: its digits, its length and its value.
-/

namespace LinuxBasedOS.Lib

open Word Stores

/-! ## The functions -/

/-- `static int8_t lookup[]`. -/
def lookup : List UInt8 :=
  "0123456789ABCDEFGHIJKLMNOPQRSTUVWXYZ".toList.map fun c => UInt8.ofNat c.toNat

/-- `strlen` of the string at `s`, from index `len` on. -/
def strlenFrom (mem : Nat → UInt8) (s : Nat) : Nat → Nat → Option Nat
  | 0, _ => none
  | fuel + 1, len => if mem (s + len) ≠ 0 then strlenFrom mem s fuel (len + 1) else some len

/-- `ece391_strlen` moves the pointer with the count. -/
def ece391StrlenFrom (mem : Nat → UInt8) : Nat → Nat → Nat → Option Nat
  | 0, _, _ => none
  | fuel + 1, s, len =>
    if 0 ≠ mem s then ece391StrlenFrom mem fuel (s + 1) (len + 1) else some len

/-- The loop of `strrev` and of `ece391_strrev`. -/
def strrevLoop (s : Nat) : Nat → (Nat → UInt8) → Int → Int → Option (Nat → UInt8)
  | 0, _, _, _ => none
  | fuel + 1, mem, beg, last =>
    if beg < last then
      let tmp := mem (s + last.toNat)
      let mem := Function.update mem (s + last.toNat) (mem (s + beg.toNat))
      strrevLoop s fuel (Function.update mem (s + beg.toNat) tmp) (beg + 1) (last - 1)
    else some mem

def strrev (fuel : Nat) (mem : Nat → UInt8) (s : Nat) : Option (Nat → UInt8) := do
  let len ← strlenFrom mem s fuel 0
  strrevLoop s fuel mem 0 (i32 (len - 1))

def ece391Strrev (fuel : Nat) (mem : Nat → UInt8) (s : Nat) : Option (Nat → UInt8) := do
  let len ← ece391StrlenFrom mem fuel s 0
  if i32 (len - 1) ≤ 0 then some mem else strrevLoop s fuel mem 0 (i32 (len - 1))

/-- The digit loop of `itoa` and of `ece391_itoa`: the memory, and `newbuf` after it. -/
def itoaLoop (radix : Nat) : Nat → (Nat → UInt8) → Nat → Nat → Option ((Nat → UInt8) × Nat)
  | 0, _, _, _ => none
  | fuel + 1, mem, newbuf, newval =>
    if newval > 0 then
      itoaLoop radix fuel (Function.update mem newbuf (lookup.getD (newval % radix) 0)) (newbuf + 1)
        (newval / radix)
    else some (mem, newbuf)

/-- The text of `itoa` and `ece391_itoa` with the reversal each of them calls. -/
def itoaWith (strrev : Nat → (Nat → UInt8) → Nat → Option (Nat → UInt8)) (fuel : Nat)
    (mem : Nat → UInt8) (value buf radix : Nat) : Option (Nat → UInt8) :=
  if value = 0 then
    some (Function.update (Function.update mem buf 48) (buf + 1) 0)
  else do
    let (mem, newbuf) ← itoaLoop radix fuel mem buf value
    strrev fuel (Function.update mem newbuf 0) buf

def itoa : Nat → (Nat → UInt8) → Nat → Nat → Nat → Option (Nat → UInt8) := itoaWith strrev

def ece391Itoa : Nat → (Nat → UInt8) → Nat → Nat → Nat → Option (Nat → UInt8) :=
  itoaWith ece391Strrev

/-! ## Numerals -/

/-- The text of a number: its digits from the highest on, and one zero for zero. -/
def numeral (radix value : Nat) : List UInt8 :=
  if value = 0 then [48]
  else (Nat.digits radix value).reverse.map fun d => lookup.getD d 0

/-- The number a digit stands for. -/
def digitValue (c : UInt8) : Nat := if c.toNat ≤ 57 then c.toNat - 48 else c.toNat - 55

/-- The number a text of digits stands for. -/
def numeralValue (radix : Nat) (text : List UInt8) : Nat :=
  text.foldl (fun value c => value * radix + digitValue c) 0

/-- The text is a numeral of the value: one to thirty-two digits below the radix, among `0`–`9`
and `A`–`Z`, with no zero in front unless the value is zero. -/
structure IsNumeral (radix value : Nat) (text : List UInt8) : Prop where
  length_pos : 1 ≤ text.length
  length_le : text.length ≤ 32
  digit_mem : ∀ c ∈ text, c ∈ lookup
  digit_lt : ∀ c ∈ text, digitValue c < radix
  head_ne : value ≠ 0 → text.head? ≠ some 48
  of_zero : value = 0 → text = [48]
  value_eq : numeralValue radix text = value

theorem digit_of_lt {d : Nat} (h : d < 36) :
    digitValue (lookup.getD d 0) = d ∧ lookup.getD d 0 ∈ lookup ∧ lookup.getD d 0 ≠ 0 := by
  decide +revert

/-- No digit ends a string. -/
theorem numeral_ne_zero {radix : Nat} (hradix : 2 ≤ radix) (hradix' : radix ≤ 36) (value : Nat) :
    0 ∉ numeral radix value := by
  unfold numeral
  split_ifs
  · decide
  · rw [List.mem_map]
    rintro ⟨d, hd, hzero⟩
    have hlt := Nat.digits_lt_base hradix (List.mem_reverse.mp hd)
    exact (digit_of_lt (by omega)).2.2 hzero

theorem numeralValue_map {radix : Nat} (hradix : radix ≤ 36) {digits : List Nat}
    (h : ∀ d ∈ digits, d < radix) :
    numeralValue radix (digits.reverse.map fun d => lookup.getD d 0) = Nat.ofDigits radix digits := by
  induction digits with
  | nil => rfl
  | cons d digits ih =>
    rw [List.forall_mem_cons] at h
    have hrest := ih h.2
    unfold numeralValue at hrest ⊢
    rw [List.reverse_cons, List.map_append, List.foldl_append, hrest, Nat.ofDigits_cons]
    simp only [List.map_cons, List.map_nil, List.foldl_cons, List.foldl_nil]
    rw [(digit_of_lt (by omega)).1, Nat.mul_comm]
    exact Nat.add_comm _ _

theorem length_digits_le {radix value k : Nat} (hradix : 2 ≤ radix) (hvalue : value < radix ^ k) :
    (Nat.digits radix value).length ≤ k :=
  (Nat.digits_length_le_iff hradix value).mpr hvalue

/-- The highest digit is not zero. -/
theorem head_numeral_ne {radix value : Nat} (hradix : 2 ≤ radix) (hradix' : radix ≤ 36)
    (hzero : value ≠ 0) : (numeral radix value).head? ≠ some 48 := by
  have hne : Nat.digits radix value ≠ [] := Nat.digits_ne_nil_iff_ne_zero.mpr hzero
  have hlast : (Nat.digits radix value).getLast hne < radix :=
    Nat.digits_lt_base hradix (List.getLast_mem hne)
  have hdigit := (digit_of_lt (hlast.trans_le hradix')).1
  intro hhead
  rw [numeral, if_neg hzero, List.head?_map, List.head?_reverse,
    List.getLast?_eq_getLast_of_ne_nil hne, Option.map_some, Option.some.injEq] at hhead
  rw [hhead] at hdigit
  exact Nat.getLast_digit_ne_zero radix hzero hdigit.symm

theorem numeral_isNumeral {radix value : Nat} (hradix : 2 ≤ radix) (hradix' : radix ≤ 36)
    (hvalue : value < 4294967296) : IsNumeral radix value (numeral radix value) := by
  by_cases hzero : value = 0
  · subst hzero
    have htext : numeral radix 0 = [48] := rfl
    have hlookup : (48 : UInt8) ∈ lookup := by decide
    rw [htext]
    refine ⟨by decide, by decide, ?_, ?_, fun h => absurd rfl h, fun _ => rfl, ?_⟩
    · rw [List.forall_mem_singleton]
      exact hlookup
    · rw [List.forall_mem_singleton]
      have hdigit : digitValue 48 = 0 := rfl
      omega
    · change 0 * radix + 0 = 0
      omega
  · have htext : numeral radix value =
        (Nat.digits radix value).reverse.map fun d => lookup.getD d 0 := if_neg hzero
    have hlt : ∀ d ∈ Nat.digits radix value, d < radix := fun d hd => Nat.digits_lt_base hradix hd
    have hne : Nat.digits radix value ≠ [] := Nat.digits_ne_nil_iff_ne_zero.mpr hzero
    have hpow : value < radix ^ 32 := by
      have hmono : 2 ^ 32 ≤ radix ^ 32 := Nat.pow_le_pow_left hradix 32
      omega
    refine ⟨?_, ?_, ?_, ?_, head_numeral_ne hradix hradix', fun h => absurd h hzero, ?_⟩
    · rw [htext, List.length_map, List.length_reverse]
      exact List.length_pos_of_ne_nil hne
    · rw [htext, List.length_map, List.length_reverse]
      exact length_digits_le hradix hpow
    · rw [htext, List.forall_mem_map]
      intro d hd
      have hd' := hlt d (List.mem_reverse.mp hd)
      exact (digit_of_lt (by omega)).2.1
    · rw [htext, List.forall_mem_map]
      intro d hd
      have hd' := hlt d (List.mem_reverse.mp hd)
      rw [(digit_of_lt (by omega)).1]
      exact hd'
    · rw [htext, numeralValue_map hradix' hlt, Nat.ofDigits_digits]

/-! ## What the loops do -/

section Loops

variable {mem : Nat → UInt8} {text : List UInt8} {s fuel : Nat}

theorem strlenFrom_eq (htext : 0 ∉ text) {len : Nat} (h : HoldsAt mem (s + len) text)
    (hfuel : text.length < fuel) : strlenFrom mem s fuel len = some (len + text.length) := by
  induction text generalizing len fuel with
  | nil =>
    obtain ⟨fuel, rfl⟩ := Nat.exists_eq_add_one.mpr hfuel
    rw [strlenFrom, if_neg (not_not.mpr (holdsAt_nil.mp h))]
    rfl
  | cons c text ih =>
    obtain ⟨fuel, rfl⟩ := Nat.exists_eq_add_one.mpr (Nat.zero_lt_of_lt hfuel)
    obtain ⟨hfirst, hrest⟩ := holdsAt_cons.mp h
    rw [List.mem_cons, not_or] at htext
    rw [strlenFrom, hfirst, if_pos (Ne.symm htext.1),
      ih htext.2 hrest (Nat.lt_of_succ_lt_succ hfuel), List.length_cons, Nat.add_assoc,
      Nat.add_comm 1]

theorem ece391StrlenFrom_eq (htext : 0 ∉ text) {len : Nat} (h : HoldsAt mem s text)
    (hfuel : text.length < fuel) : ece391StrlenFrom mem fuel s len = some (len + text.length) := by
  induction text generalizing s len fuel with
  | nil =>
    obtain ⟨fuel, rfl⟩ := Nat.exists_eq_add_one.mpr hfuel
    rw [ece391StrlenFrom, if_neg (not_not.mpr (holdsAt_nil.mp h).symm)]
    rfl
  | cons c text ih =>
    obtain ⟨fuel, rfl⟩ := Nat.exists_eq_add_one.mpr (Nat.zero_lt_of_lt hfuel)
    obtain ⟨hfirst, hrest⟩ := holdsAt_cons.mp h
    rw [List.mem_cons, not_or] at htext
    rw [ece391StrlenFrom, hfirst, if_pos htext.1,
      ih htext.2 hrest (Nat.lt_of_succ_lt_succ hfuel), List.length_cons, Nat.add_assoc,
      Nat.add_comm 1]

/-- A run of bytes with the two at its ends stored first. -/
theorem place_ends (mem : Nat → UInt8) (addr : Nat) (first last : UInt8) {mid : List UInt8}
    {len : Nat} (hlen : mid.length = len) :
    place mem addr (first :: (mid ++ [last])) =
      place (Function.update (Function.update mem addr first) (addr + 1 + len) last) (addr + 1)
        mid := by
  rw [place_cons, place_concat, hlen, place_update _ last (by omega)]

/-- The exchange of the two ends. -/
theorem exchange_ends (mem : Nat → UInt8) (addr : Nat) (first last : UInt8) (mid : List UInt8) :
    Function.update (Function.update (place mem addr (first :: (mid ++ [last])))
        (addr + 1 + mid.length) first) addr last =
      place mem addr (last :: (mid ++ [first])) := by
  have hne : addr + 1 + mid.length ≠ addr := by omega
  rw [place_cons, place_concat, place_update _ _ (by omega), Function.update_idem,
    Function.update_comm hne, Function.update_idem, place_cons, place_concat,
    place_update _ _ (by omega)]

/-- The loop of `strrev` on the run of bytes between its two indices: the ends are exchanged, and
the run between them is reversed by the turns that follow. -/
theorem strrevLoop_eq (s : Nat) (mem : Nat → UInt8) (text : List UInt8) {beg : Nat}
    (hfuel : text.length < fuel) :
    strrevLoop s fuel (place mem (s + beg) text) beg (beg + text.length - 1) =
      some (place mem (s + beg) text.reverse) := by
  induction text using List.bidirectionalRec generalizing mem beg fuel with
  | nil =>
    obtain ⟨fuel, rfl⟩ := Nat.exists_eq_add_one.mpr hfuel
    rw [strrevLoop, if_neg (by rw [List.length_nil]; omega)]
    rfl
  | singleton c =>
    obtain ⟨fuel, rfl⟩ := Nat.exists_eq_add_one.mpr (Nat.zero_lt_of_lt hfuel)
    rw [strrevLoop, if_neg (by rw [List.length_singleton]; omega)]
    rfl
  | cons_append first mid last ih =>
    obtain ⟨fuel, rfl⟩ := Nat.exists_eq_add_one.mpr (Nat.zero_lt_of_lt hfuel)
    have hlength : (first :: (mid ++ [last])).length = mid.length + 2 := by
      rw [List.length_cons, List.length_append, List.length_singleton]
    rw [hlength] at hfuel ⊢
    have hend : ((beg : Int) + (mid.length + 2 : Nat) - 1).toNat = beg + 1 + mid.length := by omega
    have hlast : place mem (s + beg) (first :: (mid ++ [last])) (s + beg + 1 + mid.length) = last := by
      rw [place_cons, place_concat, Function.update_self]
    have hfirst : place mem (s + beg) (first :: (mid ++ [last])) (s + beg) = first := by
      rw [place_cons, place_outside _ (by omega), Function.update_self]
    have hnext : (beg : Int) + (mid.length + 2 : Nat) - 1 - 1 = (beg + 1 : Nat) + mid.length - 1 := by
      omega
    have hinner := @ih fuel (Function.update (Function.update mem (s + beg) last)
      (s + beg + 1 + mid.length) first) (beg + 1) (by omega)
    rw [strrevLoop, if_pos (by omega), hend, Int.toNat_natCast]
    dsimp only
    rw [← Nat.add_assoc, ← Nat.add_assoc, hlast, hfirst, exchange_ends, hnext,
      place_ends _ _ _ _ rfl]
    rw [List.reverse_cons, List.reverse_append, List.reverse_singleton, List.cons_append,
      List.nil_append, List.cons_append, place_ends _ _ _ _ List.length_reverse]
    exact hinner

/-- `strrev` reverses the string, and its terminator stays. -/
theorem strrev_place (mem : Nat → UInt8) (htext : 0 ∉ text) (hlength : text.length < 2147483648)
    (hfuel : text.length < fuel) :
    strrev fuel (place mem s (text ++ [0])) s = some (place mem s (text.reverse ++ [0])) := by
  have hlen : strlenFrom (place mem s (text ++ [0])) s fuel 0 = some text.length := by
    rw [strlenFrom_eq htext (holdsAt_place mem s text) hfuel, Nat.zero_add]
  have hend : i32 ((text.length : Int) - 1) = (0 : Nat) + text.length - 1 := by
    rw [i32_of_range (by omega) (by omega), Nat.cast_zero, Int.zero_add]
  unfold strrev
  rw [hlen, Option.bind_eq_bind, Option.bind_some, hend, place_concat, place_concat,
    ← place_update _ _ (by omega), ← place_update _ _ (by rw [List.length_reverse]; omega),
    List.length_reverse]
  exact @strrevLoop_eq fuel s _ text 0 hfuel

/-- The early return is taken on strings that are their own reversal. -/
theorem ece391Strrev_place (mem : Nat → UInt8) (htext : 0 ∉ text)
    (hlength : text.length < 2147483648) (hfuel : text.length < fuel) :
    ece391Strrev fuel (place mem s (text ++ [0])) s =
      some (place mem s (text.reverse ++ [0])) := by
  have hlen : ece391StrlenFrom (place mem s (text ++ [0])) fuel s 0 = some text.length := by
    rw [ece391StrlenFrom_eq htext (holdsAt_place mem s text) hfuel, Nat.zero_add]
  have hlen' : strlenFrom (place mem s (text ++ [0])) s fuel 0 = some text.length := by
    rw [strlenFrom_eq htext (holdsAt_place mem s text) hfuel, Nat.zero_add]
  have hsame := strrev_place mem htext hlength hfuel (s := s)
  unfold strrev at hsame
  rw [hlen', Option.bind_eq_bind, Option.bind_some] at hsame
  unfold ece391Strrev
  rw [hlen, Option.bind_eq_bind, Option.bind_some]
  split_ifs with hshort
  · rw [i32_of_range (by omega) (by omega)] at hshort
    have hself : text.reverse = text := by
      match text, hshort with
      | [], _ => rfl
      | [c], _ => rfl
      | c :: d :: text, hshort =>
        rw [List.length_cons, List.length_cons] at hshort
        omega
    rw [hself]
  · exact hsame

/-- The digit loop stores the digits, the lowest first. -/
theorem itoaLoop_eq {radix : Nat} (hradix : 2 ≤ radix) (mem : Nat → UInt8) (newbuf newval : Nat)
    (hfuel : (Nat.digits radix newval).length < fuel) :
    itoaLoop radix fuel mem newbuf newval =
      some (place mem newbuf ((Nat.digits radix newval).map fun d => lookup.getD d 0),
        newbuf + (Nat.digits radix newval).length) := by
  induction fuel generalizing mem newbuf newval with
  | zero => exact absurd hfuel (Nat.not_lt_zero _)
  | succ fuel ih =>
    rw [itoaLoop]
    by_cases hpos : newval > 0
    · have hdigits := Nat.digits_def' hradix hpos
      rw [hdigits, List.length_cons] at hfuel
      rw [if_pos hpos, ih _ _ _ (Nat.lt_of_succ_lt_succ hfuel), hdigits, List.map_cons, place_cons,
        List.length_cons, Nat.add_assoc, Nat.add_comm 1]
    · obtain rfl : newval = 0 := Nat.eq_zero_of_not_pos hpos
      rw [if_neg hpos, Nat.digits_zero, List.map_nil, place_nil]
      rfl

end Loops

/-! ## What itoa leaves -/

section Itoa

variable {radix value fuel : Nat}

/-- `itoa` with a reversal that reverses what it is given. -/
theorem itoaWith_eq {strrev : Nat → (Nat → UInt8) → Nat → Option (Nat → UInt8)}
    (hreverse : ∀ (mem : Nat → UInt8) (s : Nat) (text : List UInt8), 0 ∉ text →
      text.length < 2147483648 → text.length < fuel →
      strrev fuel (place mem s (text ++ [0])) s = some (place mem s (text.reverse ++ [0])))
    (hradix : 2 ≤ radix) (hradix' : radix ≤ 36) (hvalue : value < 4294967296) (hfuel : 32 < fuel)
    (mem : Nat → UInt8) (buf : Nat) :
    itoaWith strrev fuel mem value buf radix =
      some (place mem buf (numeral radix value ++ [0])) := by
  have hnumeral := numeral_isNumeral hradix hradix' hvalue
  have hchars := numeral_ne_zero hradix hradix' value
  have hle := hnumeral.length_le
  unfold itoaWith
  split_ifs with hzero
  · rw [hnumeral.of_zero hzero, place_concat, place_cons, place_nil]
    rfl
  · have htext : numeral radix value =
        ((Nat.digits radix value).map fun d => lookup.getD d 0).reverse := by
      rw [numeral, if_neg hzero, List.map_reverse]
    have hlength : (numeral radix value).length = (Nat.digits radix value).length := by
      rw [htext, List.length_reverse, List.length_map]
    rw [itoaLoop_eq hradix _ _ _ (by omega), Option.bind_eq_bind, Option.bind_some]
    dsimp only
    rw [← List.length_map (fun d => lookup.getD d 0), ← place_concat, hreverse, ← htext]
    · rw [htext, List.mem_reverse] at hchars
      exact hchars
    · rw [List.length_map]
      omega
    · rw [List.length_map]
      omega

theorem itoa_eq (hradix : 2 ≤ radix) (hradix' : radix ≤ 36) (hvalue : value < 4294967296)
    (hfuel : 32 < fuel) (mem : Nat → UInt8) (buf : Nat) :
    itoa fuel mem value buf radix = some (place mem buf (numeral radix value ++ [0])) :=
  itoaWith_eq (fun mem _ _ => strrev_place mem) hradix hradix' hvalue hfuel mem buf

theorem ece391Itoa_eq (hradix : 2 ≤ radix) (hradix' : radix ≤ 36) (hvalue : value < 4294967296)
    (hfuel : 32 < fuel) (mem : Nat → UInt8) (buf : Nat) :
    ece391Itoa fuel mem value buf radix = some (place mem buf (numeral radix value ++ [0])) :=
  itoaWith_eq (fun mem _ _ => ece391Strrev_place mem) hradix hradix' hvalue hfuel mem buf

end Itoa

end LinuxBasedOS.Lib

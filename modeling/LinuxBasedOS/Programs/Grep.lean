import LinuxBasedOS.Base.Lines
import LinuxBasedOS.Base.Stores
import LinuxBasedOS.Base.Word
import LinuxBasedOS.Lib.CString
import LinuxBasedOS.Lib.Numbers

/-!
# do_one_file of grep

`do_one_file` reads a file through a buffer of 1024 bytes and prints the lines that contain a
string. A line that does not end in the buffer is carried down to its beginning before the next
read. The system calls are parameters; the output is the list of the texts written to the terminal.
Every loop that has no bound of its own runs with a number of turns, and `none` says that they were
not enough.

Whether a line is over is decided by the byte at `line_end`, which at the end of a full buffer is
`data[1024]`, a byte that no read has written.
-/

namespace LinuxBasedOS.Programs

open Word Stores Lib Lines

/-! ## The functions of ece391support.c -/

/-- The loop of `ece391_strncmp` from index `i`, with `n` bytes left to compare. -/
def ece391StrncmpFrom (s1 s2 : Nat → UInt8) : Nat → Nat → Int
  | 0, _ => 0
  | n + 1, i =>
    if s1 i = s2 i then
      if s1 i = 0 ∨ n = 0 then 0 else ece391StrncmpFrom s1 s2 n (i + 1)
    else ((s1 i).toNat : Int) - (s2 i).toNat

def ece391Strncmp (s1 s2 : Nat → UInt8) (n : Nat) : Int := ece391StrncmpFrom s1 s2 n 0

/-- `ece391_strcpy` inside one memory. -/
def ece391Strcpy : Nat → (Nat → UInt8) → Nat → Nat → Option (Nat → UInt8)
  | 0, _, _, _ => none
  | fuel + 1, mem, dst, src =>
    if 0 ≠ mem src then
      ece391Strcpy fuel (Function.update mem dst (mem src)) (dst + 1) (src + 1)
    else some (Function.update mem dst (mem src))

/-- The text that `ece391_fdputs` writes. -/
def ece391Fdputs (fuel : Nat) (mem : Nat → UInt8) (s : Nat) : Option (List UInt8) := do
  let len ← ece391StrlenFrom mem fuel s 0
  some ((List.range len).map fun i => mem (s + i))

/-! ## The loops -/

/-- `line_end` from `i` on, with `n` bytes before `last`. -/
def lineEnd (data : Nat → UInt8) : Nat → Nat → Nat
  | 0, i => i
  | n + 1, i => if 10 ≠ data i then lineEnd data n (i + 1) else i

/-- The loop over `check`, with `n` bytes before `line_end`. The characters of `s` are signed, those
of the buffer are not. -/
def searchLine (s data : Nat → UInt8) (sLen : Nat) : Nat → Nat → Bool
  | 0, _ => false
  | n + 1, check =>
    if i8 (s 0) = (data check).toNat ∧ ece391Strncmp (fun i => data (check + i)) s sLen = 0 then true
    else searchLine s data sLen n (check + 1)

/-- What is written for a line that is found. -/
def report (fname line : List UInt8) : List (List UInt8) := [fname, [58], line, [10]]

/-- The search of the `n` bytes of a line, and what is written if it is found. -/
def printLine (s data : Nat → UInt8) (sLen : Nat) (fname : List UInt8) (fuel n lineStart : Nat)
    (out : List (List UInt8)) : Option (List (List UInt8)) :=
  if searchLine s data sLen n lineStart then do
    let line ← ece391Fdputs fuel data lineStart
    some (out ++ report fname line)
  else some out

/-- The loop over the lines of the buffer: the buffer, `last` and the output after it. -/
def scanLines (s : Nat → UInt8) (sLen : Nat) (fname : List UInt8) (cnt last : Nat) :
    Nat → (Nat → UInt8) → Nat → List (List UInt8) →
      Option ((Nat → UInt8) × Nat × List (List UInt8))
  | 0, _, _, _ => none
  | fuel + 1, data, lineStart, out =>
    let stop := lineEnd data (last - lineStart) lineStart
    if 10 ≠ data stop ∧ 0 ≠ cnt ∧ lineStart ≠ 0 then do
      let data ← ece391Strcpy fuel (Function.update data stop 0) 0 lineStart
      some (data, last - lineStart, out)
    else do
      let data := Function.update data stop 0
      let out ← printLine s data sLen fname fuel (stop - lineStart) lineStart out
      if stop + 1 ≥ last then some (data, 0, out)
      else scanLines s sLen fname cnt last fuel data (stop + 1) out

/-- What the system calls give. -/
structure Calls where
  /-- what `ece391_open` returns -/
  fd : Int
  /-- the bytes of a read at a position of the file, `none` if it returns -1 -/
  read : Nat → Nat → Option (List UInt8)
  /-- what `ece391_close` returns -/
  closed : Int

def bytesOf (s : String) : List UInt8 := s.toList.map fun c => UInt8.ofNat c.toNat

/-- What has been written, and what is returned. -/
structure Outcome where
  out : List (List UInt8)
  ret : Int
  deriving DecidableEq, Repr

/-- The loop over the reads. -/
def readLoop (calls : Calls) (s : Nat → UInt8) (sLen : Nat) (fname : List UInt8) :
    Nat → (Nat → UInt8) → Nat → Nat → List (List UInt8) → Option Outcome
  | 0, _, _, _, _ => none
  | fuel + 1, data, pos, last, out =>
    match calls.read pos (1024 - last) with
    | none => some ⟨out ++ [bytesOf "file read failed\n"], -1⟩
    | some bytes => do
      let (data, last', out) ←
        scanLines s sLen fname bytes.length (last + bytes.length) fuel (place data last bytes) 0 out
      if bytes.length = 0 then
        if calls.closed = -1 then some ⟨out ++ [bytesOf "file close failed\n"], -1⟩ else some ⟨out, 0⟩
      else readLoop calls s sLen fname fuel data (pos + bytes.length) last' out

/-- `do_one_file` with the content of its `data` when it begins. -/
def doOneFile (calls : Calls) (fuel : Nat) (s fname : List UInt8) (data : Nat → UInt8) :
    Option Outcome := do
  let sLen ← ece391StrlenFrom (cstr s) fuel 0 0
  if calls.fd = -1 then some ⟨[bytesOf "file open failed\n"], -1⟩
  else readLoop calls (cstr s) sLen fname fuel data 0 0 []

/-! ## What the small loops do -/

section Loops

variable {mem data : Nat → UInt8} {s l : List UInt8} {fuel : Nat}

/-- `ece391_strncmp` with the length of the second string looks for a prefix of the first. -/
theorem ece391StrncmpFrom_eq_zero {s1 s2 : Nat → UInt8} {i : Nat} (hl : 0 ∉ l) (hs : 0 ∉ s)
    (h1 : HoldsAt s1 i l) (h2 : HoldsAt s2 i s) :
    ece391StrncmpFrom s1 s2 s.length i = 0 ↔ s <+: l := by
  induction s generalizing l i with
  | nil => exact ⟨fun _ => List.nil_prefix, fun _ => rfl⟩
  | cons c s ih =>
    rw [List.mem_cons, not_or] at hs
    obtain ⟨hc, hrest⟩ := holdsAt_cons.mp h2
    rw [List.length_cons, ece391StrncmpFrom, hc]
    cases l with
    | nil =>
      have hend : s1 i = 0 := holdsAt_nil.mp h1
      have hpos : c.toNat ≠ 0 := fun h => hs.1 (UInt8.toNat_inj.mp h.symm)
      rw [hend, if_neg hs.1]
      constructor
      · intro h
        have hzero : ((0 : UInt8).toNat : Int) = 0 := rfl
        omega
      · intro h
        cases List.prefix_nil.mp h
    | cons d l =>
      rw [List.mem_cons, not_or] at hl
      obtain ⟨hd, hrest'⟩ := holdsAt_cons.mp h1
      rw [hd, List.cons_prefix_cons]
      by_cases hdc : d = c
      · subst hdc
        rw [if_pos rfl]
        by_cases hnil : s = []
        · subst hnil
          rw [if_pos (Or.inr List.length_nil)]
          exact ⟨fun _ => ⟨rfl, List.nil_prefix⟩, fun _ => rfl⟩
        · have hlength : ¬ (d = 0 ∨ s.length = 0) := by
            rintro (hzero | hzero)
            · exact hl.1 hzero.symm
            · exact hnil (List.length_eq_zero_iff.mp hzero)
          rw [if_neg hlength, ih hl.2 hs.2 hrest' hrest]
          exact ⟨fun h => ⟨rfl, h⟩, fun h => h.2⟩
      · rw [if_neg hdc]
        constructor
        · intro h
          exact absurd (UInt8.toNat_inj.mp (by omega)) hdc
        · intro h
          exact absurd h.1.symm hdc

/-- The copy down to the beginning of the buffer. -/
theorem ece391Strcpy_eq {dst src : Nat} (hl : 0 ∉ l) (h : HoldsAt mem src l) (hlt : dst < src)
    (hfuel : l.length < fuel) : ece391Strcpy fuel mem dst src = some (place mem dst (l ++ [0])) := by
  induction l generalizing mem dst src fuel with
  | nil =>
    obtain ⟨fuel, rfl⟩ := Nat.exists_eq_add_one.mpr hfuel
    have hend := holdsAt_nil.mp h
    rw [ece391Strcpy, hend, if_neg (fun hne => hne rfl), List.nil_append, update_eq_place]
  | cons c l ih =>
    obtain ⟨fuel, rfl⟩ := Nat.exists_eq_add_one.mpr (Nat.zero_lt_of_lt hfuel)
    rw [List.mem_cons, not_or] at hl
    obtain ⟨hc, hrest⟩ := holdsAt_cons.mp h
    have hrest' : HoldsAt (Function.update mem dst c) (src + 1) l := by
      intro j hj
      rw [Function.update_of_ne (by omega)]
      exact hrest j hj
    rw [ece391Strcpy, hc, if_pos hl.1, ih hl.2 hrest' (by omega) (Nat.lt_of_succ_lt_succ hfuel),
      List.cons_append, place_cons]

theorem ece391Fdputs_eq {i : Nat} (hl : 0 ∉ l) (h : HoldsAt data i l) (hfuel : l.length < fuel) :
    ece391Fdputs fuel data i = some l := by
  unfold ece391Fdputs
  rw [ece391StrlenFrom_eq hl h hfuel, Option.bind_eq_bind, Option.bind_some, Nat.zero_add]
  congr 1
  refine List.ext_getElem ?_ ?_
  · rw [List.length_map, List.length_range]
  · intro j hj hj'
    rw [List.getElem_map, List.getElem_range, h j (Nat.le_of_lt hj'), cstr_of_lt hj']

theorem lineEnd_eq {i n : Nat} (hl : 10 ∉ l) (h : Spans data i l) (hn : l.length ≤ n)
    (hend : n = l.length ∨ data (i + l.length) = 10) : lineEnd data n i = i + l.length := by
  induction l generalizing i n with
  | nil =>
    cases n with
    | zero => rfl
    | succ n =>
      rcases hend with hzero | hnewline
      · cases hzero
      · have hhere : data i = 10 := hnewline
        rw [lineEnd, hhere, if_neg (fun hne => hne rfl)]
        rfl
  | cons c l ih =>
    obtain ⟨n, rfl⟩ : ∃ m, n = m + 1 := Nat.exists_eq_add_one.mpr (Nat.zero_lt_of_lt hn)
    rw [List.mem_cons, not_or] at hl
    obtain ⟨hc, hrest⟩ := spans_cons.mp h
    have hnext : i + 1 + l.length = i + (c :: l).length := by
      rw [List.length_cons]
      omega
    rw [lineEnd, hc, if_pos hl.1, ih hl.2 hrest (Nat.le_of_succ_le_succ hn) ?_, hnext]
    rcases hend with hlength | hnewline
    · exact Or.inl (Nat.succ.inj hlength)
    · rw [hnext]
      exact Or.inr hnewline

end Loops

/-! ## One line -/

/-- The first character of the string is the same number signed and unsigned. -/
def Plain (s : List UInt8) : Prop := (cstr s 0).toNat < 128

/-- The line is one that the search finds. -/
def Found (s line : List UInt8) : Prop := Plain s ∧ s <:+: line

instance (s : List UInt8) : Decidable (Plain s) :=
  inferInstanceAs (Decidable ((cstr s 0).toNat < 128))

instance (s line : List UInt8) : Decidable (Found s line) :=
  inferInstanceAs (Decidable (Plain s ∧ s <:+: line))

/-- What is written for the lines. -/
def reports (s fname : List UInt8) (ls : List (List UInt8)) : List (List UInt8) :=
  (ls.filter fun l => Found s l).flatMap (report fname)

section Line

variable {data : Nat → UInt8} {s l : List UInt8} {fuel : Nat}

theorem searchLine_iff {check : Nat} (hne : s ≠ []) (hs : 0 ∉ s) (hl : 0 ∉ l)
    (h : HoldsAt data check l) :
    searchLine (cstr s) data s.length l.length check = true ↔ Found s l := by
  induction l generalizing check with
  | nil =>
    refine ⟨fun h => absurd h Bool.false_ne_true, ?_⟩
    rintro ⟨-, hhas⟩
    exact absurd (List.infix_nil.mp hhas) hne
  | cons c l ih =>
    have hrest := (holdsAt_cons.mp h).2
    have hshift : HoldsAt (fun i => data (check + i)) 0 (c :: l) := by
      intro j hj
      dsimp only
      rw [Nat.zero_add]
      exact h j hj
    have hstarts := ece391StrncmpFrom_eq_zero hl hs hshift (holdsAt_cstr s)
    have hfirst : data check = c := (holdsAt_cons.mp h).1
    -- a prefix of the line begins with its first character
    have hstart : s <+: c :: l → cstr s 0 = c := by
      intro hpre
      cases s with
      | nil => exact absurd rfl hne
      | cons d s => exact (List.cons_prefix_cons.mp hpre).1
    have hsigned : s <+: c :: l → (i8 (cstr s 0) = (c.toNat : Int) ↔ Plain s) := by
      intro hpre
      have hlt := c.toNat_lt
      unfold Plain i8
      rw [hstart hpre]
      split_ifs <;> omega
    rw [List.mem_cons, not_or] at hl
    rw [List.length_cons, searchLine, hfirst, Found, List.infix_cons_iff]
    by_cases hpre : s <+: c :: l
    · by_cases hplain : Plain s
      · rw [if_pos ⟨(hsigned hpre).mpr hplain, hstarts.mpr hpre⟩]
        exact ⟨fun _ => ⟨hplain, Or.inl hpre⟩, fun _ => rfl⟩
      · rw [if_neg (fun h => hplain ((hsigned hpre).mp h.1)), ih hl.2 hrest]
        exact ⟨fun h => absurd h.1 hplain, fun h => absurd h.1 hplain⟩
    · rw [if_neg (fun h => hpre (hstarts.mp h.2)), ih hl.2 hrest]
      exact and_congr_right fun _ => (or_iff_right hpre).symm

theorem reports_append (s fname : List UInt8) (ls ls' : List (List UInt8)) :
    reports s fname (ls ++ ls') = reports s fname ls ++ reports s fname ls' := by
  unfold reports
  rw [List.filter_append, List.flatMap_append]

theorem reports_singleton (s fname l : List UInt8) :
    reports s fname [l] = if Found s l then report fname l else [] := by
  by_cases hfound : Found s l <;> simp [reports, hfound]

theorem holdsAt_of_spans {i : Nat} (h : Spans data i l) (hend : data (i + l.length) = 0) :
    HoldsAt data i l := by
  intro j hj
  rcases Nat.eq_or_lt_of_le hj with rfl | hlt
  · rw [hend, cstr_of_le (Nat.le_refl _)]
  · rw [h j hlt, cstr_of_lt hlt]

/-- The line after its end has been overwritten with a terminator. -/
theorem holdsAt_terminated {i stop : Nat} (h : Spans data i l) (hstop : stop = i + l.length) :
    HoldsAt (Function.update data stop 0) i l := by
  subst hstop
  refine holdsAt_of_spans (h.congr ?_) (Function.update_self _ _ _)
  intro j hj
  exact Function.update_of_ne (by omega) _ _

/-- The search of a line with its terminator in place, and what it writes. -/
theorem printLine_eq {i : Nat} (hne : s ≠ []) (hs : 0 ∉ s) (hl : 0 ∉ l) (h : HoldsAt data i l)
    (hfuel : l.length < fuel) (fname : List UInt8) (out : List (List UInt8)) :
    printLine (cstr s) data s.length fname fuel l.length i out =
      some (out ++ reports s fname [l]) := by
  have hiff := searchLine_iff hne hs hl h
  rw [reports_singleton, printLine]
  by_cases hfound : Found s l
  · rw [if_pos (hiff.mpr hfound), ece391Fdputs_eq hl h hfuel, Option.bind_eq_bind, Option.bind_some,
      if_pos hfound]
  · rw [if_neg (fun h => hfound (hiff.mp h)), if_neg hfound, List.append_nil]

end Line

/-! ## The lines of the buffer -/

section Scan

variable {data : Nat → UInt8} {s fname l rest tail : List UInt8} {cnt last lineStart fuel : Nat}

/-- A line that ends in the buffer is searched, and the loop goes on behind it unless it was the
last. -/
theorem scanLines_line (hne : s ≠ []) (hs : 0 ∉ s) (hl : 0 ∉ l) (hnewline : 10 ∉ l)
    (h : Spans data lineStart (l ++ 10 :: rest))
    (hlast : last = lineStart + l.length + 1 + rest.length) (hfuel : l.length < fuel)
    (out : List (List UInt8)) :
    scanLines (cstr s) s.length fname cnt last (fuel + 1) data lineStart out =
      if rest = [] then
        some (Function.update data (lineStart + l.length) 0, 0, out ++ reports s fname [l])
      else
        scanLines (cstr s) s.length fname cnt last fuel
          (Function.update data (lineStart + l.length) 0) (lineStart + l.length + 1)
          (out ++ reports s fname [l]) := by
  obtain ⟨hspans, hafter⟩ := spans_append.mp h
  have hend : data (lineStart + l.length) = 10 := (spans_cons.mp hafter).1
  have hstop : lineEnd data (last - lineStart) lineStart = lineStart + l.length :=
    lineEnd_eq hnewline hspans (by omega) (Or.inr hend)
  have hholds := holdsAt_terminated hspans rfl
  rw [scanLines, hstop]
  dsimp only
  rw [if_neg (fun hcut => hcut.1 hend.symm), Nat.add_sub_cancel_left,
    printLine_eq hne hs hl hholds hfuel, Option.bind_eq_bind, Option.bind_some]
  by_cases hrest : rest = []
  · subst hrest
    rw [if_pos rfl, if_pos (by rw [List.length_nil] at hlast; omega)]
  · have hpos := List.length_pos_of_ne_nil hrest
    rw [if_neg hrest, if_neg (by omega)]

/-- The bytes behind the last newline when they count as a line. -/
theorem scanLines_end (hne : s ≠ []) (hs : 0 ∉ s) (htail : 0 ∉ tail) (hnewline : 10 ∉ tail)
    (h : Spans data lineStart tail) (hlast : last = lineStart + tail.length)
    (hover : data last = 10 ∨ cnt = 0 ∨ lineStart = 0) (hfuel : tail.length < fuel)
    (out : List (List UInt8)) :
    scanLines (cstr s) s.length fname cnt last (fuel + 1) data lineStart out =
      some (Function.update data last 0, 0, out ++ reports s fname [tail]) := by
  have hstop : lineEnd data (last - lineStart) lineStart = last := by
    rw [lineEnd_eq hnewline h (by omega) (Or.inl (by omega)), hlast]
  have hholds := holdsAt_terminated h hlast
  have hkeep : ¬ (10 ≠ data last ∧ 0 ≠ cnt ∧ lineStart ≠ 0) := by
    rintro ⟨hbyte, hcnt, hstart⟩
    rcases hover with hten | hzero | hfirst
    · exact hbyte hten.symm
    · exact hcnt hzero.symm
    · exact hstart hfirst
  have hsub : last - lineStart = tail.length := by omega
  rw [scanLines, hstop]
  dsimp only
  rw [if_neg hkeep, hsub, printLine_eq hne hs htail hholds hfuel, Option.bind_eq_bind,
    Option.bind_some, if_pos (by omega)]

/-- The bytes behind the last newline when they are carried down. -/
theorem scanLines_carry (htail : 0 ∉ tail) (hnewline : 10 ∉ tail) (h : Spans data lineStart tail)
    (hlast : last = lineStart + tail.length) (hbyte : data last ≠ 10) (hcnt : cnt ≠ 0)
    (hstart : lineStart ≠ 0) (hfuel : tail.length < fuel) (s : Nat → UInt8) (sLen : Nat)
    (out : List (List UInt8)) :
    scanLines s sLen fname cnt last (fuel + 1) data lineStart out =
      some (place (Function.update data last 0) 0 (tail ++ [0]), tail.length, out) := by
  have hstop : lineEnd data (last - lineStart) lineStart = last := by
    rw [lineEnd_eq hnewline h (by omega) (Or.inl (by omega)), hlast]
  have hholds := holdsAt_terminated h hlast
  have hsub : last - lineStart = tail.length := by omega
  rw [scanLines, hstop]
  dsimp only
  rw [if_pos ⟨Ne.symm hbyte, Ne.symm hcnt, hstart⟩,
    ece391Strcpy_eq htail hholds (Nat.pos_of_ne_zero hstart) hfuel, Option.bind_eq_bind,
    Option.bind_some, hsub]

/-- The lines that end in the buffer, with something behind them. -/
theorem scanLines_ended (hne : s ≠ []) (hs : 0 ∉ s) {ls : List (List UInt8)}
    (hls : ∀ l ∈ ls, 10 ∉ l) (hzero : 0 ∉ ended 10 ls) (hrest : rest ≠ [])
    (h : Spans data lineStart (ended 10 ls ++ rest))
    (hlast : last = lineStart + (ended 10 ls).length + rest.length) (hfuel : last < fuel)
    (out : List (List UInt8)) :
    ∃ data', scanLines (cstr s) s.length fname cnt last (fuel + ls.length) data lineStart out =
        scanLines (cstr s) s.length fname cnt last fuel data'
          (lineStart + (ended 10 ls).length) (out ++ reports s fname ls) ∧
      Spans data' (lineStart + (ended 10 ls).length) rest ∧
      ∀ i, lineStart + (ended 10 ls).length ≤ i → data' i = data i := by
  induction ls generalizing data lineStart out with
  | nil =>
    refine ⟨data, ?_, h, fun i _ => rfl⟩
    have hnone : reports s fname [] = [] := rfl
    rw [hnone, List.append_nil]
    rfl
  | cons l ls ih =>
    rw [List.forall_mem_cons] at hls
    have hended : ended 10 (l :: ls) = l ++ 10 :: ended 10 ls := by
      have hcons := @ended_cons UInt8 10 l ls []
      rwa [List.append_nil, List.append_nil] at hcons
    rw [hended] at hzero
    rw [List.mem_append, List.mem_cons, not_or, not_or] at hzero
    obtain ⟨hl, -, hzero'⟩ := hzero
    have hlength : (ended 10 (l :: ls)).length = l.length + 1 + (ended 10 ls).length := by
      rw [hended, List.length_append, List.length_cons]
      omega
    rw [hlength] at hlast ⊢
    rw [ended_cons] at h
    have hmore : ended 10 ls ++ rest ≠ [] := fun hnil => hrest (List.append_eq_nil_iff.mp hnil).2
    have hstep := @scanLines_line data s fname l (ended 10 ls ++ rest) cnt last lineStart
      (fuel + ls.length) hne hs hl hls.1 h (by rw [List.length_append]; omega) (by omega) out
    rw [if_neg hmore] at hstep
    have hspans : Spans (Function.update data (lineStart + l.length) 0) (lineStart + l.length + 1)
        (ended 10 ls ++ rest) := by
      refine (spans_cons.mp (spans_append.mp h).2).2.congr ?_
      intro i hi
      exact Function.update_of_ne (by omega) _ _
    obtain ⟨data', hscan, hbehind, hsame⟩ :=
      ih hls.2 hzero' hspans (by omega) (out ++ reports s fname [l])
    have hplace : lineStart + l.length + 1 + (ended 10 ls).length =
        lineStart + (l.length + 1 + (ended 10 ls).length) := by omega
    rw [hplace] at hscan hbehind
    refine ⟨data', ?_, hbehind, ?_⟩
    · rw [List.length_cons, ← Nat.add_assoc, hstep, hscan, List.append_assoc, ← reports_append,
        List.singleton_append]
    · intro i hi
      rw [hsame i (by omega)]
      exact Function.update_of_ne (by omega) _ _

/-- A buffer that ends with a newline: all its lines are searched. -/
theorem scanLines_closed (hne : s ≠ []) (hs : 0 ∉ s) {ls : List (List UInt8)} (hnil : ls ≠ [])
    (hls : ∀ l ∈ ls, 10 ∉ l) (hzero : 0 ∉ ended 10 ls) (h : Spans data 0 (ended 10 ls))
    (hlast : last = (ended 10 ls).length) (hfuel : last + ls.length < fuel)
    (out : List (List UInt8)) :
    ∃ data', scanLines (cstr s) s.length fname cnt last fuel data 0 out =
        some (data', 0, out ++ reports s fname ls) ∧ ∀ i, last ≤ i → data' i = data i := by
  obtain ⟨before, l, rfl⟩ := List.eq_nil_or_concat ls |>.resolve_left hnil
  rw [List.concat_eq_append] at hls hzero h hlast hfuel ⊢
  have hended : ended 10 (before ++ [l]) = ended 10 before ++ (l ++ [10]) := by
    unfold ended
    rw [List.flatMap_append, List.flatMap_singleton]
  rw [List.forall_mem_append, List.forall_mem_singleton] at hls
  rw [hended] at hzero h hlast
  rw [List.mem_append, List.mem_append, not_or, not_or] at hzero
  rw [List.length_append, List.length_append, List.length_singleton] at hlast
  rw [List.length_append, List.length_singleton] at hfuel
  obtain ⟨fuel, rfl⟩ : ∃ turns, fuel = turns + 1 + before.length :=
    ⟨fuel - 1 - before.length, by omega⟩
  have hmore : l ++ [10] ≠ [] := List.append_ne_nil_of_right_ne_nil l (List.cons_ne_nil 10 [])
  obtain ⟨data₁, hscan, hspans, hsame⟩ := @scanLines_ended data s fname (l ++ [10]) cnt last 0
    (fuel + 1) hne hs before hls.1 hzero.1 hmore h
    (by rw [List.length_append, List.length_singleton]; omega) (by omega) out
  have hline := @scanLines_line data₁ s fname l [] cnt last (0 + (ended 10 before).length) fuel hne hs
    hzero.2.1 hls.2 hspans (by rw [List.length_nil]; omega) (by omega) (out ++ reports s fname before)
  rw [if_pos rfl, List.append_assoc, ← reports_append] at hline
  refine ⟨_, hscan.trans hline, ?_⟩
  intro i hi
  rw [Function.update_of_ne (by omega)]
  exact hsame i (by omega)

/-- A buffer that ends inside a line, when what is behind the last newline counts as a line. -/
theorem scanLines_over (hne : s ≠ []) (hs : 0 ∉ s) {ls : List (List UInt8)}
    (hls : ∀ l ∈ ls, 10 ∉ l) (hzero : 0 ∉ ended 10 ls ++ tail) (hnewline : 10 ∉ tail)
    (hsome : ls = [] ∨ tail ≠ []) (h : Spans data 0 (ended 10 ls ++ tail))
    (hlast : last = (ended 10 ls ++ tail).length)
    (hover : data last = 10 ∨ cnt = 0 ∨ ls = []) (hfuel : last + ls.length + 1 < fuel)
    (out : List (List UInt8)) :
    ∃ data', scanLines (cstr s) s.length fname cnt last fuel data 0 out =
        some (data', 0, out ++ reports s fname (ls ++ [tail])) ∧ data' last = 0 ∧
        ∀ i, last < i → data' i = data i := by
  rw [List.mem_append, not_or] at hzero
  rw [List.length_append] at hlast
  rcases hsome with rfl | htail
  · obtain ⟨fuel, rfl⟩ : ∃ turns, fuel = turns + 1 := Nat.exists_eq_add_one.mpr (by omega)
    rw [List.length_nil] at hfuel
    refine ⟨_, scanLines_end hne hs hzero.2 hnewline h ?_ (Or.inr (Or.inr rfl)) ?_ out,
      Function.update_self _ _ _, ?_⟩
    · exact hlast
    · omega
    · intro i hi
      exact Function.update_of_ne (by omega) _ _
  · obtain ⟨fuel, rfl⟩ : ∃ turns, fuel = turns + 1 + ls.length := ⟨fuel - 1 - ls.length, by omega⟩
    obtain ⟨data₁, hscan, hspans, hsame⟩ := @scanLines_ended data s fname tail cnt last 0 (fuel + 1)
      hne hs ls hls hzero.1 htail h (by omega) (by omega) out
    have hover' : data₁ last = 10 ∨ cnt = 0 ∨ 0 + (ended 10 ls).length = 0 := by
      rw [hsame last (by omega)]
      refine hover.imp_right (Or.imp_right ?_)
      rintro rfl
      rfl
    have hend := @scanLines_end data₁ s fname tail cnt last (0 + (ended 10 ls).length) fuel hne hs
      hzero.2 hnewline hspans (by omega) hover' (by omega) (out ++ reports s fname ls)
    rw [List.append_assoc, ← reports_append] at hend
    refine ⟨_, hscan.trans hend, Function.update_self _ _ _, ?_⟩
    intro i hi
    rw [Function.update_of_ne (by omega)]
    exact hsame i (by omega)

/-- A buffer that ends inside a line, when what is behind the last newline is carried down. -/
theorem scanLines_carried (hne : s ≠ []) (hs : 0 ∉ s) {ls : List (List UInt8)} (hnil : ls ≠ [])
    (hls : ∀ l ∈ ls, 10 ∉ l) (hzero : 0 ∉ ended 10 ls ++ tail) (hnewline : 10 ∉ tail)
    (htail : tail ≠ []) (h : Spans data 0 (ended 10 ls ++ tail))
    (hlast : last = (ended 10 ls ++ tail).length) (hbyte : data last ≠ 10) (hcnt : cnt ≠ 0)
    (hfuel : last + ls.length + 1 < fuel) (out : List (List UInt8)) :
    ∃ data', scanLines (cstr s) s.length fname cnt last fuel data 0 out =
        some (data', tail.length, out ++ reports s fname ls) ∧ Spans data' 0 tail ∧
        tail.length < last ∧ data' last = 0 ∧ ∀ i, last < i → data' i = data i := by
  have hpos : 0 < (ended 10 ls).length := by
    obtain ⟨l, ls, rfl⟩ := List.exists_cons_of_ne_nil hnil
    have hcons := @ended_cons UInt8 10 l ls []
    rw [List.append_nil] at hcons
    rw [hcons, List.length_append, List.length_cons]
    omega
  rw [List.mem_append, not_or] at hzero
  rw [List.length_append] at hlast
  obtain ⟨fuel, rfl⟩ : ∃ turns, fuel = turns + 1 + ls.length := ⟨fuel - 1 - ls.length, by omega⟩
  obtain ⟨data₁, hscan, hspans, hsame⟩ := @scanLines_ended data s fname tail cnt last 0 (fuel + 1)
    hne hs ls hls hzero.1 htail h (by omega) (by omega) out
  have hcarry := @scanLines_carry data₁ fname tail cnt last (0 + (ended 10 ls).length) fuel hzero.2
    hnewline hspans (by omega) (by rw [hsame last (by omega)]; exact hbyte) hcnt (by omega) (by omega)
    (cstr s) s.length (out ++ reports s fname ls)
  have hlength : (tail ++ [0]).length = tail.length + 1 := by
    rw [List.length_append, List.length_singleton]
  refine ⟨_, hscan.trans hcarry, (spans_append.mp (spans_place _ _ _)).1, by omega, ?_, ?_⟩
  · rw [place_outside _ (Or.inr (by omega)), Function.update_self]
  · intro i hi
    rw [place_outside _ (Or.inr (by omega)), Function.update_of_ne (by omega)]
    exact hsame i (by omega)

end Scan

end LinuxBasedOS.Programs

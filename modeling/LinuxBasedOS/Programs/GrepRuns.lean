import LinuxBasedOS.Programs.Grep

/-!
# What grep prints

`readLoop` is followed read by read. Before a read the buffer holds a line that has begun, and the
rest of the file is still to come; together they have the lines that are still to be searched. A
full buffer that ends inside a line asks `data[1024]` whether the line is over. No read writes that
byte; the first question about it clears it. So when it is a newline at the beginning, the first
full block of the file that does not end with a newline cuts its last line in two.

`grep_prints_iff` says for which files and strings the output is right all the same.
-/

namespace LinuxBasedOS.Programs

open Word Stores Lib Lines

/-- The system calls succeed, and reads deliver the file in order and are short only at its end. -/
structure Delivers (calls : Calls) (file : List UInt8) : Prop where
  opened : calls.fd ≠ -1
  read_eq : ∀ pos n, calls.read pos n = some ((file.drop pos).take n)
  closed : calls.closed ≠ -1

/-- Turns enough for the loops over one buffer. -/
def bufferTurns : Nat := 3000

/-- Before a read: the buffer has the line that has begun, and the rest of the file is to come. -/
structure Pending (file : List UInt8) (data : Nat → UInt8) (pos : Nat) (p rest : List UInt8) :
    Prop where
  rest_eq : file.drop pos = rest
  spans : Spans data 0 p
  zero_not_mem : 0 ∉ p ++ rest
  newline_not_mem : 10 ∉ p
  length_lt : p.length < 1024

/-- What a read brings into the buffer. -/
def chunk (p rest : List UInt8) : List UInt8 := rest.take (1024 - p.length)

/-- What is still to come after it. -/
def behind (p rest : List UInt8) : List UInt8 := rest.drop (1024 - p.length)

section Reads

variable {calls : Calls} {file s fname p rest tail : List UInt8} {data : Nat → UInt8} {pos fuel : Nat}
variable {ls : List (List UInt8)}

theorem reports_nil (hne : s ≠ []) (fname : List UInt8) : reports s fname [[]] = [] := by
  rw [reports_singleton, if_neg]
  rintro ⟨-, hhas⟩
  exact hne (List.infix_nil.mp hhas)

theorem length_le_length_ended (ls : List (List UInt8)) : ls.length ≤ (ended 10 ls).length := by
  induction ls with
  | nil => exact Nat.le_refl 0
  | cons l ls ih =>
    have hcons := @ended_cons UInt8 10 l ls []
    rw [List.append_nil, List.append_nil] at hcons
    rw [hcons, List.length_append, List.length_cons, List.length_cons]
    omega

theorem chunk_append_behind (p rest : List UInt8) : chunk p rest ++ behind p rest = rest :=
  List.take_append_drop _ _

theorem length_buffer_le (h : p.length < 1024) (rest : List UInt8) :
    (p ++ chunk p rest).length ≤ 1024 := by
  rw [List.length_append, chunk, List.length_take]
  omega

theorem chunk_ne_nil (h : p.length < 1024) (hrest : rest ≠ []) : chunk p rest ≠ [] := by
  intro hnil
  rcases List.take_eq_nil_iff.mp hnil with hzero | hnil
  · omega
  · exact hrest hnil

/-- One read. -/
theorem readLoop_eq (hcalls : Delivers calls file) (hrest : file.drop pos = rest)
    (out : List (List UInt8)) :
    readLoop calls (cstr s) s.length fname (fuel + 1) data pos p.length out =
      (scanLines (cstr s) s.length fname (chunk p rest).length (p ++ chunk p rest).length fuel
        (place data p.length (chunk p rest)) 0 out).bind fun result =>
        if (chunk p rest).length = 0 then some ⟨result.2.2, 0⟩
        else readLoop calls (cstr s) s.length fname fuel result.1
          (pos + (chunk p rest).length) result.2.1 result.2.2 := by
  rw [readLoop, hcalls.read_eq, hrest, List.length_append]
  dsimp only
  simp only [if_neg hcalls.closed]
  rfl

/-- The buffer after a read. -/
theorem spans_buffer (h : Spans data 0 p) (bytes : List UInt8) :
    Spans (place data p.length bytes) 0 (p ++ bytes) := by
  refine spans_append.mpr ⟨h.congr ?_, ?_⟩
  · intro i hi
    rw [Nat.zero_add]
    exact place_outside _ (Or.inl hi)
  · rw [Nat.zero_add]
    exact spans_place _ _ _

/-- The byte behind the buffer is not read. -/
theorem place_behind (data : Nat → UInt8) (p rest : List UInt8) {i : Nat}
    (hi : (p ++ chunk p rest).length ≤ i) : place data p.length (chunk p rest) i = data i := by
  rw [List.length_append] at hi
  exact place_outside _ (Or.inr hi)

/-- A turn of the loop over the reads that brings something. -/
theorem Pending.turn (hcalls : Delivers calls file) (h : Pending file data pos p rest)
    (hrest : rest ≠ []) {data' : Nat → UInt8} {last' : Nat} {out out' : List (List UInt8)}
    (hscan : scanLines (cstr s) s.length fname (chunk p rest).length (p ++ chunk p rest).length fuel
      (place data p.length (chunk p rest)) 0 out = some (data', last', out')) :
    readLoop calls (cstr s) s.length fname (fuel + 1) data pos p.length out =
      readLoop calls (cstr s) s.length fname fuel data' (pos + (chunk p rest).length) last' out' := by
  have hlength : (chunk p rest).length ≠ 0 := by
    have hpos := List.length_pos_of_ne_nil (chunk_ne_nil h.length_lt hrest)
    omega
  rw [readLoop_eq hcalls h.rest_eq, hscan, Option.bind_some, if_neg hlength]

/-- The state after the turn, with what the buffer has kept. -/
theorem Pending.next (h : Pending file data pos p rest) {data' : Nat → UInt8} {p' : List UInt8}
    (hspans : Spans data' 0 p') (hsub : ∀ c ∈ p', c ∈ p ++ chunk p rest) (hnewline : 10 ∉ p')
    (hlength : p'.length < 1024) :
    Pending file data' (pos + (chunk p rest).length) p' (behind p rest) := by
  have hsplit := chunk_append_behind p rest
  have hzero := h.zero_not_mem
  rw [← hsplit, ← List.append_assoc, List.mem_append, not_or] at hzero
  refine ⟨?_, hspans, ?_, hnewline, hlength⟩
  · rw [← List.drop_drop, h.rest_eq, behind, chunk, List.length_take]
    rcases Nat.le_total (1024 - p.length) rest.length with hle | hle
    · rw [Nat.min_eq_left hle]
    · rw [Nat.min_eq_right hle, List.drop_length, List.drop_eq_nil_of_le hle]
  · rw [List.mem_append, not_or]
    exact ⟨fun hmem => hzero.1 (hsub 0 hmem), hzero.2⟩

theorem Pending.next_empty (h : Pending file data pos p rest) (data' : Nat → UInt8) :
    Pending file data' (pos + (chunk p rest).length) [] (behind p rest) :=
  h.next (spans_nil data' 0) (fun _ hc => absurd hc List.not_mem_nil) List.not_mem_nil (by decide)

theorem Pending.zero_not_mem_buffer (h : Pending file data pos p rest) : 0 ∉ p ++ chunk p rest := by
  have hzero := h.zero_not_mem
  rw [← chunk_append_behind p rest, ← List.append_assoc, List.mem_append, not_or] at hzero
  exact hzero.1

/-- The buffer after a read, and the bytes behind it. -/
theorem Pending.buffer (h : Pending file data pos p rest) {buffer : List UInt8}
    (hbuffer : p ++ chunk p rest = buffer) :
    buffer.length ≤ 1024 ∧ Spans (place data p.length (chunk p rest)) 0 buffer ∧ 0 ∉ buffer ∧
      ∀ i, buffer.length ≤ i → place data p.length (chunk p rest) i = data i := by
  subst hbuffer
  exact ⟨length_buffer_le h.length_lt rest, spans_buffer h.spans (chunk p rest),
    h.zero_not_mem_buffer, fun _ hi => place_behind data p rest hi⟩

/-- The buffer ends with a newline. -/
theorem Pending.closed (hcalls : Delivers calls file) (hne : s ≠ []) (hs : 0 ∉ s)
    (h : Pending file data pos p rest) (hrest : rest ≠ []) (hls : ∀ l ∈ ls, 10 ∉ l)
    (hbuffer : p ++ chunk p rest = ended 10 ls) (hfuel : bufferTurns < fuel)
    (out : List (List UInt8)) :
    ∃ data', readLoop calls (cstr s) s.length fname (fuel + 1) data pos p.length out =
        readLoop calls (cstr s) s.length fname fuel data' (pos + (chunk p rest).length) 0
          (out ++ reports s fname ls) ∧
      Pending file data' (pos + (chunk p rest).length) [] (behind p rest) ∧
      data' 1024 = data 1024 := by
  obtain ⟨hle, hspans, hzero, hsame⟩ := h.buffer hbuffer
  have hcount := length_le_length_ended ls
  have hnil : ls ≠ [] := by
    rintro rfl
    exact chunk_ne_nil h.length_lt hrest (List.append_eq_nil_iff.mp hbuffer).2
  unfold bufferTurns at hfuel
  obtain ⟨data', hscan, hkeep⟩ := @scanLines_closed (place data p.length (chunk p rest)) s fname
    (chunk p rest).length _ fuel hne hs ls hnil hls hzero hspans rfl (by omega) out
  rw [← hbuffer] at hscan
  refine ⟨data', h.turn hcalls hrest hscan, h.next_empty data', ?_⟩
  rw [hkeep 1024 hle, hsame 1024 hle]

/-- The buffer ends inside a line, and what is behind the last newline counts as a line. -/
theorem Pending.over (hcalls : Delivers calls file) (hne : s ≠ []) (hs : 0 ∉ s)
    (h : Pending file data pos p rest) (hrest : rest ≠ []) (hls : ∀ l ∈ ls, 10 ∉ l)
    (hnewline : 10 ∉ tail) (htail : tail ≠ []) (hbuffer : p ++ chunk p rest = ended 10 ls ++ tail)
    (hover : data (p ++ chunk p rest).length = 10 ∨ ls = []) (hfuel : bufferTurns < fuel)
    (out : List (List UInt8)) :
    ∃ data', readLoop calls (cstr s) s.length fname (fuel + 1) data pos p.length out =
        readLoop calls (cstr s) s.length fname fuel data' (pos + (chunk p rest).length) 0
          (out ++ reports s fname (ls ++ [tail])) ∧
      Pending file data' (pos + (chunk p rest).length) [] (behind p rest) ∧
      ((p ++ chunk p rest).length = 1024 → data' 1024 = 0) := by
  obtain ⟨hle, hspans, hzero, hsame⟩ := h.buffer hbuffer
  have hcount := length_le_length_ended ls
  rw [hbuffer, ← hsame _ (Nat.le_refl _)] at hover
  rw [hbuffer]
  have hlength : (ended 10 ls ++ tail).length = (ended 10 ls).length + tail.length :=
    List.length_append
  unfold bufferTurns at hfuel
  obtain ⟨data', hscan, hend, -⟩ := @scanLines_over (place data p.length (chunk p rest)) s fname tail
    (chunk p rest).length _ fuel hne hs ls hls hzero hnewline (Or.inr htail) hspans rfl
    (hover.imp_right Or.inr) (by omega) out
  rw [← hbuffer] at hscan
  refine ⟨data', h.turn hcalls hrest hscan, h.next_empty data', ?_⟩
  intro hfull
  rw [← hfull]
  exact hend

/-- The buffer ends inside a line, and what is behind the last newline is carried down. -/
theorem Pending.carried (hcalls : Delivers calls file) (hne : s ≠ []) (hs : 0 ∉ s)
    (h : Pending file data pos p rest) (hrest : rest ≠ []) (hls : ∀ l ∈ ls, 10 ∉ l) (hnil : ls ≠ [])
    (hnewline : 10 ∉ tail) (htail : tail ≠ []) (hbuffer : p ++ chunk p rest = ended 10 ls ++ tail)
    (hbyte : data (p ++ chunk p rest).length ≠ 10) (hfuel : bufferTurns < fuel)
    (out : List (List UInt8)) :
    ∃ data', readLoop calls (cstr s) s.length fname (fuel + 1) data pos p.length out =
        readLoop calls (cstr s) s.length fname fuel data' (pos + (chunk p rest).length) tail.length
          (out ++ reports s fname ls) ∧
      Pending file data' (pos + (chunk p rest).length) tail (behind p rest) ∧
      ((p ++ chunk p rest).length = 1024 → data' 1024 = 0) := by
  obtain ⟨hle, hspans, hzero, hsame⟩ := h.buffer hbuffer
  have hcount := length_le_length_ended ls
  have hpos := List.length_pos_of_ne_nil (chunk_ne_nil h.length_lt hrest)
  rw [hbuffer, ← hsame _ (Nat.le_refl _)] at hbyte
  rw [hbuffer]
  have hlength : (ended 10 ls ++ tail).length = (ended 10 ls).length + tail.length :=
    List.length_append
  unfold bufferTurns at hfuel
  obtain ⟨data', hscan, hcarried, hlt, hend, -⟩ := @scanLines_carried
    (place data p.length (chunk p rest)) s fname tail (chunk p rest).length _ fuel hne hs ls hnil hls
    hzero hnewline htail hspans rfl hbyte (by omega) (by omega) out
  rw [← hbuffer] at hscan
  refine ⟨data', h.turn hcalls hrest hscan, h.next hcarried ?_ hnewline (by omega), ?_⟩
  · intro c hc
    rw [hbuffer]
    exact List.mem_append_right _ hc
  · intro hfull
    rw [← hfull]
    exact hend

/-- The last turn, when the file is at its end. -/
theorem Pending.last (hcalls : Delivers calls file) (hne : s ≠ []) (hs : 0 ∉ s)
    (h : Pending file data pos p []) (hfuel : bufferTurns < fuel) (out : List (List UInt8)) :
    readLoop calls (cstr s) s.length fname fuel data pos p.length out =
      some ⟨out ++ reports s fname [p], 0⟩ := by
  unfold bufferTurns at hfuel
  obtain ⟨fuel, rfl⟩ : ∃ turns, fuel = turns + 1 := Nat.exists_eq_add_one.mpr (by omega)
  have hnone : chunk p [] = [] := List.take_nil
  have hzero := h.zero_not_mem
  rw [List.append_nil] at hzero
  have hlength := h.length_lt
  obtain ⟨data', hscan, -, -⟩ := @scanLines_over (place data p.length []) s fname p 0 p.length fuel
    hne hs [] (fun l hl => absurd hl List.not_mem_nil) hzero h.newline_not_mem (Or.inl rfl)
    (by rw [place_nil]; exact h.spans) rfl (Or.inr (Or.inl rfl)) (by rw [List.length_nil]; omega) out
  rw [readLoop_eq hcalls h.rest_eq, hnone, List.append_nil, List.length_nil, hscan, Option.bind_some,
    if_pos rfl]
  rfl

/-! ## Runs over the rest of the file -/

theorem length_behind_lt (h : p.length < 1024) (hrest : rest ≠ []) :
    (behind p rest).length < rest.length := by
  have hpos := List.length_pos_of_ne_nil hrest
  rw [behind, List.length_drop]
  omega

/-- After a turn that leaves the buffer empty, at the end of the file. -/
theorem Pending.last_empty (hcalls : Delivers calls file) (hne : s ≠ []) (hs : 0 ∉ s)
    (h : Pending file data pos [] []) (hfuel : bufferTurns < fuel) (out : List (List UInt8)) :
    readLoop calls (cstr s) s.length fname fuel data pos 0 out = some ⟨out, 0⟩ := by
  have hlast := @Pending.last calls file s fname [] data pos fuel hcalls hne hs h hfuel out
  rw [reports_nil hne, List.append_nil] at hlast
  exact hlast

/-- What is left fits into the buffer: whatever the byte behind it is, the last line is searched
once. -/
theorem Pending.short (hcalls : Delivers calls file) (hne : s ≠ []) (hs : 0 ∉ s)
    (h : Pending file data pos p rest) (hshort : (p ++ rest).length < 1024)
    (hfuel : bufferTurns + 1 < fuel) (out : List (List UInt8)) :
    readLoop calls (cstr s) s.length fname fuel data pos p.length out =
      some ⟨out ++ reports s fname ((p ++ rest).splitOn 10), 0⟩ := by
  by_cases hrest : rest = []
  · subst hrest
    rw [List.append_nil, List.splitOn_eq_singleton h.newline_not_mem]
    exact h.last hcalls hne hs (by omega) out
  · obtain ⟨fuel, rfl⟩ : ∃ turns, fuel = turns + 1 := Nat.exists_eq_add_one.mpr (by omega)
    have hfuel' : bufferTurns < fuel := by omega
    have hall : rest.length ≤ 1024 - p.length := by
      rw [List.length_append] at hshort
      omega
    have hchunk : chunk p rest = rest := List.take_of_length_le hall
    have hbehind : behind p rest = [] := List.drop_eq_nil_of_le hall
    obtain ⟨ls, tail, hbuffer, hls, hnewline⟩ := exists_ended 10 (p ++ rest)
    have hlines : (p ++ rest).splitOn 10 = ls ++ [tail] := by
      rw [hbuffer, splitOn_ended hls, List.splitOn_eq_singleton hnewline]
    rw [hlines]
    rw [← hchunk] at hbuffer
    by_cases htail : tail = []
    · subst htail
      rw [List.append_nil] at hbuffer
      obtain ⟨data', hturn, hnext, -⟩ := h.closed hcalls hne hs hrest hls hbuffer hfuel' out
      rw [hbehind] at hnext
      rw [hturn, hnext.last_empty hcalls hne hs hfuel', reports_append, reports_nil hne,
        List.append_nil]
    · by_cases hover : data (p ++ chunk p rest).length = 10 ∨ ls = []
      · obtain ⟨data', hturn, hnext, -⟩ :=
          h.over hcalls hne hs hrest hls hnewline htail hbuffer hover hfuel' out
        rw [hbehind] at hnext
        rw [hturn, hnext.last_empty hcalls hne hs hfuel']
      · rw [not_or] at hover
        obtain ⟨data', hturn, hnext, -⟩ :=
          h.carried hcalls hne hs hrest hls hover.2 hnewline htail hbuffer hover.1 hfuel' out
        rw [hbehind] at hnext
        rw [hturn, hnext.last hcalls hne hs hfuel', List.append_assoc, ← reports_append]

/-- A buffer without a newline holds a line that is too long. -/
theorem length_first_line (hnewline : 10 ∉ tail) (text : List UInt8)
    (hlines : ∀ l ∈ (tail ++ text).splitOn 10, l.length ≤ 1023) : tail.length ≤ 1023 := by
  obtain ⟨first, others, hsplit⟩ := exists_splitOn 10 text
  rw [splitOn_append_of_not_mem hnewline, hsplit, List.modifyHead_cons, List.forall_mem_cons,
    List.length_append] at hlines
  omega

/-- Lines of the rest are not longer than lines of the whole. -/
theorem length_lines_of_append (hnewline : 10 ∉ tail) {text : List UInt8}
    (hlines : ∀ l ∈ (tail ++ text).splitOn 10, l.length ≤ 1023) :
    ∀ l ∈ text.splitOn 10, l.length ≤ 1023 := by
  obtain ⟨first, others, hsplit⟩ := exists_splitOn 10 text
  rw [splitOn_append_of_not_mem hnewline, hsplit, List.modifyHead_cons, List.forall_mem_cons,
    List.length_append] at hlines
  rw [hsplit, List.forall_mem_cons]
  exact ⟨by omega, hlines.2⟩

/-- A turn over a full buffer, with another byte than a newline behind it: what is behind the last
newline of the buffer is carried down. -/
theorem Pending.step (hcalls : Delivers calls file) (hne : s ≠ []) (hs : 0 ∉ s)
    (h : Pending file data pos p rest) (hfull : (p ++ chunk p rest).length = 1024)
    (hbyte : data 1024 ≠ 10) (hlines : ∀ l ∈ (p ++ rest).splitOn 10, l.length ≤ 1023)
    (hfuel : bufferTurns < fuel) (out : List (List UInt8)) :
    ∃ data' pos' ls tail, readLoop calls (cstr s) s.length fname (fuel + 1) data pos p.length out =
        readLoop calls (cstr s) s.length fname fuel data' pos' tail.length
          (out ++ reports s fname ls) ∧
      Pending file data' pos' tail (behind p rest) ∧ data' 1024 ≠ 10 ∧ (∀ l ∈ ls, 10 ∉ l) ∧
      p ++ rest = ended 10 ls ++ (tail ++ behind p rest) := by
  have hlt := h.length_lt
  have hrest : rest ≠ [] := by
    rintro rfl
    rw [chunk, List.take_nil, List.append_nil] at hfull
    omega
  obtain ⟨ls, tail, hbuffer, hls, hnewline⟩ := exists_ended 10 (p ++ chunk p rest)
  have hsplit : p ++ rest = ended 10 ls ++ (tail ++ behind p rest) := by
    rw [← List.append_assoc, ← hbuffer, List.append_assoc, chunk_append_behind]
  by_cases htail : tail = []
  · subst htail
    rw [List.append_nil] at hbuffer
    obtain ⟨data', hturn, hnext, hkeep⟩ := h.closed hcalls hne hs hrest hls hbuffer hfuel out
    exact ⟨data', _, ls, [], hturn, hnext, fun hten => hbyte (hkeep ▸ hten), hls, hsplit⟩
  · have hnil : ls ≠ [] := by
      rintro rfl
      rw [hsplit] at hlines
      have hlong := length_first_line hnewline _ hlines
      have hwhole : p ++ chunk p rest = tail := hbuffer
      rw [hwhole] at hfull
      omega
    obtain ⟨data', hturn, hnext, hzero⟩ :=
      h.carried hcalls hne hs hrest hls hnil hnewline htail hbuffer (hfull ▸ hbyte) hfuel out
    have hbyte' : data' 1024 ≠ 10 := by
      rw [hzero hfull]
      decide
    exact ⟨data', _, ls, tail, hturn, hnext, hbyte', hls, hsplit⟩

/-- With another byte than a newline behind the buffer every line is searched once. -/
theorem Pending.lines (hcalls : Delivers calls file) (hne : s ≠ []) (hs : 0 ∉ s)
    (h : Pending file data pos p rest) (hbyte : data 1024 ≠ 10)
    (hlines : ∀ l ∈ (p ++ rest).splitOn 10, l.length ≤ 1023)
    (hfuel : rest.length + bufferTurns + 1 < fuel) (out : List (List UInt8)) :
    readLoop calls (cstr s) s.length fname fuel data pos p.length out =
      some ⟨out ++ reports s fname ((p ++ rest).splitOn 10), 0⟩ := by
  induction hlen : rest.length using Nat.strong_induction_on generalizing data pos p rest fuel out with
  | _ len ih =>
    subst hlen
    by_cases hshort : (p ++ rest).length < 1024
    · exact h.short hcalls hne hs hshort (by omega) out
    · have hlt := h.length_lt
      rw [List.length_append] at hshort
      have hrest : rest ≠ [] := by
        rintro rfl
        rw [List.length_nil] at hshort
        omega
      have hless := length_behind_lt hlt hrest
      have hfull : (p ++ chunk p rest).length = 1024 := by
        rw [List.length_append, chunk, List.length_take]
        omega
      obtain ⟨fuel, rfl⟩ : ∃ turns, fuel = turns + 1 := Nat.exists_eq_add_one.mpr (by omega)
      have hfuel' : bufferTurns < fuel := by omega
      have hmore : (behind p rest).length + bufferTurns + 1 < fuel := by omega
      obtain ⟨data', pos', ls, tail, hturn, hnext, hbyte', hls, hsplit⟩ :=
        h.step hcalls hne hs hfull hbyte hlines hfuel' out
      rw [hsplit, splitOn_ended hls] at hlines ⊢
      have hgoes := ih _ hless hnext hbyte' (fun l hl => hlines l (List.mem_append_right _ hl))
        hmore (out ++ reports s fname ls) rfl
      rw [List.append_assoc, ← reports_append] at hgoes
      rw [hturn]
      exact hgoes

/-! ## A newline behind the buffer -/

/-- Block `k` of the file is full and does not end with a newline, and all blocks before it do. -/
def OpenBlock (file : List UInt8) (k : Nat) : Prop :=
  (∀ j < k, file[1024 * j + 1023]? = some 10) ∧ ∃ c, file[1024 * k + 1023]? = some c ∧ c ≠ 10

theorem OpenBlock.unique {k k' : Nat} (h : OpenBlock file k) (h' : OpenBlock file k') : k = k' := by
  rcases Nat.lt_trichotomy k k' with hlt | heq | hgt
  · obtain ⟨c, hc, hne⟩ := h.2
    have hten := h'.1 k hlt
    rw [hc, Option.some.injEq] at hten
    exact absurd hten hne
  · exact heq
  · obtain ⟨c, hc, hne⟩ := h'.2
    have hten := h.1 k' hgt
    rw [hc, Option.some.injEq] at hten
    exact absurd hten hne

/-- Behind a block that ends with a newline the blocks are those of the rest. -/
theorem openBlock_succ (hten : rest[1023]? = some 10) (k : Nat) :
    OpenBlock rest (k + 1) ↔ OpenBlock (rest.drop 1024) k := by
  have hshift : ∀ j, (rest.drop 1024)[1024 * j + 1023]? = rest[1024 * (j + 1) + 1023]? := by
    intro j
    have hindex : 1024 + (1024 * j + 1023) = 1024 * (j + 1) + 1023 := by omega
    rw [List.getElem?_drop, hindex]
  unfold OpenBlock
  rw [hshift]
  refine and_congr_left fun _ => ?_
  constructor
  · intro h j hj
    rw [hshift]
    exact h (j + 1) (Nat.succ_lt_succ hj)
  · intro h j hj
    cases j with
    | zero => exact hten
    | succ j =>
      rw [← hshift]
      exact h j (Nat.lt_of_succ_lt_succ hj)

/-- The last byte of a text says whether its last line is over. -/
theorem tail_eq_nil_iff {buffer : List UInt8} (hbuffer : buffer = ended 10 ls ++ tail)
    (hnewline : 10 ∉ tail) {i : Nat} (hfull : buffer.length = i + 1) :
    tail = [] ↔ buffer[i]? = some 10 := by
  have hlast : buffer[i]? = buffer.getLast? := by
    rw [List.getLast?_eq_getElem?, hfull, Nat.add_sub_cancel]
  rw [hlast, hbuffer]
  constructor
  · rintro rfl
    rcases List.eq_nil_or_concat ls with rfl | ⟨before, l, rfl⟩
    · rw [hbuffer] at hfull
      cases hfull
    · have hended : ended 10 (before.concat l) ++ [] = ended 10 before ++ l ++ [10] := by
        unfold ended
        rw [List.concat_eq_append, List.flatMap_append, List.flatMap_singleton, List.append_nil,
          List.append_assoc]
      rw [hended, List.getLast?_concat]
  · intro hten
    by_contra htail
    rw [List.getLast?_append_of_ne_nil _ htail] at hten
    exact hnewline (List.mem_of_getLast? hten)

theorem Pending.full (h : Pending file data pos [] rest) (hlength : 1024 ≤ rest.length) :
    rest ≠ [] ∧ ([] ++ chunk [] rest).length = 1024 ∧
      ([] ++ chunk [] rest)[1023]? = rest[1023]? := by
  refine ⟨?_, ?_, ?_⟩
  · rintro rfl
    exact absurd hlength (by decide)
  · rw [List.nil_append, chunk, List.length_take, List.length_nil]
    omega
  · rw [List.nil_append, chunk, List.getElem?_take, if_pos (by decide)]

/-- A turn over a full block that ends with a newline. -/
theorem Pending.block (hcalls : Delivers calls file) (hne : s ≠ []) (hs : 0 ∉ s)
    (h : Pending file data pos [] rest) (hten : rest[1023]? = some 10) (hfuel : bufferTurns < fuel)
    (out : List (List UInt8)) :
    ∃ data' pos' ls, readLoop calls (cstr s) s.length fname (fuel + 1) data pos 0 out =
        readLoop calls (cstr s) s.length fname fuel data' pos' 0 (out ++ reports s fname ls) ∧
      Pending file data' pos' [] (rest.drop 1024) ∧ data' 1024 = data 1024 ∧
      (∀ l ∈ ls, 10 ∉ l) ∧ rest.take 1024 = ended 10 ls := by
  have hlength : 1024 ≤ rest.length := by
    obtain ⟨hlt, -⟩ := List.getElem?_eq_some_iff.mp hten
    exact hlt
  obtain ⟨hrest, hfull, hbyte⟩ := h.full hlength
  obtain ⟨ls, tail, hbuffer, hls, hnewline⟩ := exists_ended 10 ([] ++ chunk [] rest)
  have htail : tail = [] := (tail_eq_nil_iff hbuffer hnewline hfull).mpr (hbyte.trans hten)
  subst htail
  rw [List.append_nil] at hbuffer
  obtain ⟨data', hturn, hnext, hkeep⟩ := h.closed hcalls hne hs hrest hls hbuffer hfuel out
  exact ⟨data', _, ls, hturn, hnext, hkeep, hls, hbuffer⟩

/-- With a newline behind the buffer, and no block that is open, every line is searched once. -/
theorem Pending.lines_of_no_openBlock (hcalls : Delivers calls file) (hne : s ≠ []) (hs : 0 ∉ s)
    (h : Pending file data pos [] rest) (hnone : ∀ k, ¬ OpenBlock rest k)
    (hfuel : rest.length + bufferTurns + 1 < fuel) (out : List (List UInt8)) :
    readLoop calls (cstr s) s.length fname fuel data pos 0 out =
      some ⟨out ++ reports s fname (rest.splitOn 10), 0⟩ := by
  induction hlen : rest.length using Nat.strong_induction_on generalizing data pos rest fuel out with
  | _ len ih =>
    subst hlen
    by_cases hshort : rest.length < 1024
    · exact h.short hcalls hne hs hshort (by omega) out
    · have hten : rest[1023]? = some 10 := by
        by_contra hopen
        refine hnone 0 ⟨fun j hj => absurd hj (Nat.not_lt_zero j), rest[1023], ?_, ?_⟩
        · exact List.getElem?_eq_getElem _
        · intro hlast
          rw [List.getElem?_eq_getElem (by omega), hlast] at hopen
          exact hopen rfl
      obtain ⟨fuel, rfl⟩ : ∃ turns, fuel = turns + 1 := Nat.exists_eq_add_one.mpr (by omega)
      have hfuel' : bufferTurns < fuel := by omega
      obtain ⟨data', pos', ls, hturn, hnext, -, hls, hblock⟩ :=
        h.block hcalls hne hs hten hfuel' out
      have hless : (rest.drop 1024).length < rest.length := by
        rw [List.length_drop]
        omega
      have hnone' : ∀ k, ¬ OpenBlock (rest.drop 1024) k :=
        fun k hk => hnone (k + 1) ((openBlock_succ hten k).mpr hk)
      have hmore : (rest.drop 1024).length + bufferTurns + 1 < fuel := by omega
      have hgoes := ih _ hless hnext hnone' hmore (out ++ reports s fname ls) rfl
      rw [List.append_assoc, ← reports_append, ← splitOn_ended hls, ← hblock,
        List.take_append_drop] at hgoes
      rw [hturn]
      exact hgoes

/-- A turn over a full block that does not end with a newline: with a newline behind the buffer its
end is searched as a line, and the newline is gone. -/
theorem Pending.cut (hcalls : Delivers calls file) (hne : s ≠ []) (hs : 0 ∉ s)
    (h : Pending file data pos [] rest) (hbyte : data 1024 = 10) {c : UInt8}
    (hc : rest[1023]? = some c) (hcten : c ≠ 10) (hfuel : bufferTurns < fuel)
    (out : List (List UInt8)) :
    ∃ data' pos' ls tail, readLoop calls (cstr s) s.length fname (fuel + 1) data pos 0 out =
        readLoop calls (cstr s) s.length fname fuel data' pos' 0
          (out ++ reports s fname (ls ++ [tail])) ∧
      Pending file data' pos' [] (rest.drop 1024) ∧ data' 1024 ≠ 10 ∧ (∀ l ∈ ls, 10 ∉ l) ∧
      10 ∉ tail ∧ rest.take 1024 = ended 10 ls ++ tail := by
  have hlength : 1024 ≤ rest.length := (List.getElem?_eq_some_iff.mp hc).1
  obtain ⟨hrest, hfull, hlast⟩ := h.full hlength
  obtain ⟨ls, tail, hbuffer, hls, hnewline⟩ := exists_ended 10 ([] ++ chunk [] rest)
  have htail : tail ≠ [] := by
    intro hnil
    have hten := (tail_eq_nil_iff hbuffer hnewline hfull).mp hnil
    rw [hlast] at hten
    exact hcten (Option.some.inj (hc.symm.trans hten))
  obtain ⟨data', hturn, hnext, hzero⟩ := @Pending.over calls file s fname [] rest tail data pos fuel
    ls hcalls hne hs h hrest hls hnewline htail hbuffer (Or.inl (hfull ▸ hbyte)) hfuel out
  have hbyte' : data' 1024 ≠ 10 := by
    rw [hzero hfull]
    decide
  exact ⟨data', _, ls, tail, hturn, hnext, hbyte', hls, hnewline, hbuffer⟩

/-- With a newline behind the buffer the open block ends a line, and what follows begins one. -/
theorem Pending.lines_of_openBlock (hcalls : Delivers calls file) (hne : s ≠ []) (hs : 0 ∉ s) {k : Nat}
    (h : Pending file data pos [] rest) (hbyte : data 1024 = 10) (hopen : OpenBlock rest k)
    (hlines : ∀ l ∈ rest.splitOn 10, l.length ≤ 1023)
    (hfuel : rest.length + bufferTurns + 1 < fuel) (out : List (List UInt8)) :
    readLoop calls (cstr s) s.length fname fuel data pos 0 out =
      some ⟨out ++ reports s fname ((rest.take (1024 * (k + 1))).splitOn 10 ++
        (rest.drop (1024 * (k + 1))).splitOn 10), 0⟩ := by
  induction k generalizing data pos rest fuel out with
  | zero =>
    obtain ⟨fuel, rfl⟩ : ∃ turns, fuel = turns + 1 := Nat.exists_eq_add_one.mpr (by omega)
    have hfuel' : bufferTurns < fuel := by omega
    obtain ⟨c, hc, hcten⟩ := hopen.2
    obtain ⟨data', pos', ls, tail, hturn, hnext, hbyte', hls, hnewline, htake⟩ :=
      h.cut hcalls hne hs hbyte hc hcten hfuel' out
    have hsplit : rest = ended 10 ls ++ (tail ++ rest.drop 1024) := by
      rw [← List.append_assoc, ← htake, List.take_append_drop]
    have hlines' : ∀ l ∈ (rest.drop 1024).splitOn 10, l.length ≤ 1023 := by
      rw [hsplit, splitOn_ended hls] at hlines
      exact length_lines_of_append hnewline fun l hl => hlines l (List.mem_append_right _ hl)
    have hmore : (rest.drop 1024).length + bufferTurns + 1 < fuel := by
      have hlt : 1023 < rest.length := (List.getElem?_eq_some_iff.mp hc).1
      rw [List.length_drop]
      omega
    have hgoes := @Pending.lines calls file s fname [] _ data' _ fuel hcalls hne hs hnext hbyte' hlines'
      hmore (out ++ reports s fname (ls ++ [tail]))
    have hcut : (rest.take 1024).splitOn 10 = ls ++ [tail] := by
      rw [htake, splitOn_ended hls, List.splitOn_eq_singleton hnewline]
    rw [List.append_assoc, ← reports_append, List.nil_append] at hgoes
    rw [Nat.zero_add, Nat.mul_one, hcut, hturn]
    exact hgoes
  | succ k ih =>
    obtain ⟨fuel, rfl⟩ : ∃ turns, fuel = turns + 1 := Nat.exists_eq_add_one.mpr (by omega)
    have hfuel' : bufferTurns < fuel := by omega
    have hten : rest[1023]? = some 10 := hopen.1 0 (Nat.succ_pos k)
    have hlt : 1023 < rest.length := (List.getElem?_eq_some_iff.mp hten).1
    obtain ⟨data', pos', ls, hturn, hnext, hkeep, hls, hblock⟩ :=
      h.block hcalls hne hs hten hfuel' out
    have hsplit : rest = ended 10 ls ++ rest.drop 1024 := by
      rw [← hblock, List.take_append_drop]
    have hlines' : ∀ l ∈ (rest.drop 1024).splitOn 10, l.length ≤ 1023 := by
      rw [hsplit, splitOn_ended hls] at hlines
      exact fun l hl => hlines l (List.mem_append_right _ hl)
    have hmore : (rest.drop 1024).length + bufferTurns + 1 < fuel := by
      rw [List.length_drop]
      omega
    have hgoes := ih hnext (hkeep.trans hbyte) ((openBlock_succ hten k).mp hopen) hlines' hmore
      (out ++ reports s fname ls)
    have hcount : 1024 * (k + 1 + 1) = 1024 + 1024 * (k + 1) := by omega
    have htake : rest.take (1024 * (k + 1 + 1)) =
        ended 10 ls ++ (rest.drop 1024).take (1024 * (k + 1)) := by
      rw [hcount, List.take_add, hblock]
    have hdrop : (rest.drop 1024).drop (1024 * (k + 1)) = rest.drop (1024 * (k + 1 + 1)) := by
      rw [hcount, List.drop_drop]
    rw [List.append_assoc, ← reports_append, ← List.append_assoc, ← splitOn_ended hls, ← htake,
      hdrop] at hgoes
    rw [hturn]
    exact hgoes

end Reads

/-! ## The output -/

/-- `do_one_file` comes to its end with the lines that contain the string, each written once, whole
and in order. -/
def GrepPrints (calls : Calls) (s fname : List UInt8) (data : Nat → UInt8) (file : List UInt8) :
    Prop :=
  ∃ turns, ∀ fuel ≥ turns, doOneFile calls fuel s fname data =
    some ⟨((file.splitOn 10).filter fun l => s <:+: l).flatMap (report fname), 0⟩

/-- The first open block ends inside a line with the string, not directly before its end. -/
def CutMatch (s file : List UInt8) : Prop :=
  ∃ k, OpenBlock file k ∧ ((file.drop (1024 * (k + 1))).splitOn 10).headD [] ≠ [] ∧
    s <:+: ((file.take (1024 * (k + 1))).splitOn 10).getLastD [] ++
      ((file.drop (1024 * (k + 1))).splitOn 10).headD []

section Output

variable {calls : Calls} {file s fname : List UInt8} {data : Nat → UInt8}

theorem reports_of_plain (hplain : Plain s) (fname : List UInt8) (ls : List (List UInt8)) :
    reports s fname ls = (ls.filter fun l => s <:+: l).flatMap (report fname) := by
  unfold reports
  congr 1
  refine List.filter_congr ?_
  intro l _
  exact decide_eq_decide.mpr ⟨fun h => h.2, fun h => ⟨hplain, h⟩⟩

theorem reports_of_not_plain (hplain : ¬ Plain s) (fname : List UInt8) (ls : List (List UInt8)) :
    reports s fname ls = [] := by
  unfold reports
  rw [List.filter_eq_nil_iff.mpr, List.flatMap_nil]
  intro l _ hfound
  exact hplain (of_decide_eq_true hfound).1

/-- Nothing is to be printed exactly when no line contains the string. -/
theorem matching_eq_nil_iff (s fname : List UInt8) (ls : List (List UInt8)) :
    (ls.filter fun l => s <:+: l).flatMap (report fname) = [] ↔ ∀ l ∈ ls, ¬ s <:+: l := by
  rw [List.flatMap_eq_nil_iff]
  constructor
  · intro h l hl hhas
    cases h l (List.mem_filter.mpr ⟨hl, decide_eq_true hhas⟩)
  · intro h l hl
    obtain ⟨hmem, hhas⟩ := List.mem_filter.mp hl
    exact absurd (of_decide_eq_true hhas) (h l hmem)

/-- A line in two pieces is written as it is in one only when there is nothing to write, or nothing
in the second piece. -/
theorem reports_cut_iff (hne : s ≠ []) (hplain : Plain s) (fname : List UInt8)
    {tail first : List UInt8} (htail : tail ≠ []) :
    reports s fname [tail] ++ reports s fname [first] = reports s fname [tail ++ first] ↔
      ¬ (first ≠ [] ∧ s <:+: tail ++ first) := by
  by_cases hfirst : first = []
  · subst hfirst
    rw [reports_nil hne, List.append_nil, List.append_nil]
    exact ⟨fun _ h => h.1 rfl, fun _ => rfl⟩
  · rw [reports_singleton, reports_singleton, reports_singleton]
    by_cases hwhole : s <:+: tail ++ first
    · have hfound : Found s (tail ++ first) := ⟨hplain, hwhole⟩
      refine ⟨fun h => absurd h ?_, fun h => absurd ⟨hfirst, hwhole⟩ h⟩
      rw [if_pos hfound]
      -- neither piece is the whole line, and both together are two lines
      by_cases hleft : Found s tail
      · by_cases hright : Found s first
        · rw [if_pos hleft, if_pos hright]
          simp [report]
        · rw [if_pos hleft, if_neg hright]
          simp [report, hfirst]
      · by_cases hright : Found s first
        · rw [if_neg hleft, if_pos hright]
          simp [report, htail]
        · rw [if_neg hleft, if_neg hright]
          simp [report]
    · have hleft : ¬ s <:+: tail := fun h => hwhole (h.trans (List.infix_append' [] tail first))
      have hright : ¬ s <:+: first := fun h => hwhole (h.trans (List.suffix_append _ _).isInfix)
      rw [if_neg (fun h => hleft h.2), if_neg (fun h => hright h.2), if_neg (fun h => hwhole h.2)]
      exact ⟨fun _ h => hwhole h.2, fun _ => rfl⟩

/-- The same with lines before and after it. -/
theorem reports_lines_cut_iff (hne : s ≠ []) (hplain : Plain s) (fname : List UInt8)
    {tail first : List UInt8} (htail : tail ≠ []) (ls others : List (List UInt8)) :
    reports s fname (ls ++ [tail] ++ first :: others) =
        reports s fname (ls ++ (tail ++ first) :: others) ↔
      ¬ (first ≠ [] ∧ s <:+: tail ++ first) := by
  have hcons : ∀ l, reports s fname (l :: others) = reports s fname [l] ++ reports s fname others :=
    fun l => reports_append s fname [l] others
  rw [← reports_cut_iff hne hplain fname htail, reports_append, reports_append, reports_append,
    hcons first, hcons (tail ++ first), List.append_assoc, List.append_right_inj,
    ← List.append_assoc, List.append_left_inj]

/-- There is only one first open block. -/
theorem cutMatch_iff {k : Nat} (hopen : OpenBlock file k) :
    CutMatch s file ↔ ((file.drop (1024 * (k + 1))).splitOn 10).headD [] ≠ [] ∧
      s <:+: ((file.take (1024 * (k + 1))).splitOn 10).getLastD [] ++
        ((file.drop (1024 * (k + 1))).splitOn 10).headD [] := by
  constructor
  · rintro ⟨k', hopen', h⟩
    obtain rfl := hopen.unique hopen'
    exact h
  · intro h
    exact ⟨k, hopen, h⟩

theorem pending_start (hfile : 0 ∉ file) (data : Nat → UInt8) : Pending file data 0 [] file where
  rest_eq := rfl
  spans := spans_nil data 0
  zero_not_mem := hfile
  newline_not_mem := List.not_mem_nil
  length_lt := by decide

theorem doOneFile_eq (hcalls : Delivers calls file) (hs : 0 ∉ s) {fuel : Nat}
    (hfuel : s.length < fuel) (fname : List UInt8) (data : Nat → UInt8) :
    doOneFile calls fuel s fname data =
      readLoop calls (cstr s) s.length fname fuel data 0 0 [] := by
  unfold doOneFile
  rw [ece391StrlenFrom_eq hs (holdsAt_cstr s) hfuel, Option.bind_eq_bind, Option.bind_some,
    if_neg hcalls.opened, Nat.zero_add]

/-- The lines that are searched: those of the file, or those of the file cut behind its first open
block. -/
theorem doOneFile_lines (hcalls : Delivers calls file) (hfile : 0 ∉ file)
    (hlines : ∀ l ∈ file.splitOn 10, l.length ≤ 1023) (hne : s ≠ []) (hs : 0 ∉ s)
    (fname : List UInt8) (data : Nat → UInt8) :
    ∃ ls, (∃ turns, ∀ fuel ≥ turns,
        doOneFile calls fuel s fname data = some ⟨reports s fname ls, 0⟩) ∧
      (ls = file.splitOn 10 ∧ (data 1024 ≠ 10 ∨ ∀ k, ¬ OpenBlock file k) ∨
        data 1024 = 10 ∧ ∃ k, OpenBlock file k ∧
          ls = (file.take (1024 * (k + 1))).splitOn 10 ++ (file.drop (1024 * (k + 1))).splitOn 10) := by
  have hstart := pending_start hfile data
  have hrun : ∀ ls, (∀ fuel > file.length + bufferTurns + 1,
        readLoop calls (cstr s) s.length fname fuel data 0 0 [] = some ⟨[] ++ reports s fname ls, 0⟩) →
      ∃ turns, ∀ fuel ≥ turns, doOneFile calls fuel s fname data = some ⟨reports s fname ls, 0⟩ := by
    intro ls hls
    refine ⟨file.length + bufferTurns + s.length + 2, ?_⟩
    intro fuel hfuel
    rw [doOneFile_eq hcalls hs (by omega), hls fuel (by omega), List.nil_append]
  by_cases hbyte : data 1024 = 10
  · by_cases hopen : ∃ k, OpenBlock file k
    · obtain ⟨k, hk⟩ := hopen
      refine ⟨_, hrun _ ?_, Or.inr ⟨hbyte, k, hk, rfl⟩⟩
      intro fuel hfuel
      exact hstart.lines_of_openBlock hcalls hne hs hbyte hk hlines hfuel []
    · have hnone : ∀ k, ¬ OpenBlock file k := fun k hk => hopen ⟨k, hk⟩
      refine ⟨_, hrun _ ?_, Or.inl ⟨rfl, Or.inr hnone⟩⟩
      intro fuel hfuel
      exact hstart.lines_of_no_openBlock hcalls hne hs hnone hfuel []
  · refine ⟨_, hrun _ ?_, Or.inl ⟨rfl, Or.inl hbyte⟩⟩
    intro fuel hfuel
    exact hstart.lines hcalls hne hs hbyte hlines hfuel []

/-- The end of the open block and the beginning of what follows are one line of the file. -/
theorem splitOn_openBlock {k : Nat} (hopen : OpenBlock file k) :
    ∃ ls tail first others, tail ≠ [] ∧
      (file.take (1024 * (k + 1))).splitOn 10 = ls ++ [tail] ∧
      (file.drop (1024 * (k + 1))).splitOn 10 = first :: others ∧
      file.splitOn 10 = ls ++ (tail ++ first) :: others := by
  obtain ⟨c, hc, hcten⟩ := hopen.2
  have hlt : 1024 * k + 1023 < file.length := (List.getElem?_eq_some_iff.mp hc).1
  obtain ⟨ls, tail, htake, hls, hnewline⟩ := exists_ended 10 (file.take (1024 * (k + 1)))
  obtain ⟨first, others, hdrop⟩ := exists_splitOn 10 (file.drop (1024 * (k + 1)))
  have hlines : (file.take (1024 * (k + 1))).splitOn 10 = ls ++ [tail] := by
    rw [htake, splitOn_ended hls, List.splitOn_eq_singleton hnewline]
  refine ⟨ls, tail, first, others, ?_, hlines, hdrop, ?_⟩
  · -- the last byte of the block is not a newline
    intro hnil
    have hlength : (file.take (1024 * (k + 1))).length = 1024 * k + 1023 + 1 := by
      rw [List.length_take]
      omega
    have hten := (tail_eq_nil_iff htake hnewline hlength).mp hnil
    rw [List.getElem?_take, if_pos (by omega), hc, Option.some.injEq] at hten
    exact hcten hten
  · have hsplit : file = ended 10 ls ++ (tail ++ file.drop (1024 * (k + 1))) := by
      rw [← List.append_assoc, ← htake, List.take_append_drop]
    rw [hsplit, splitOn_ended hls, splitOn_append_of_not_mem hnewline, hdrop, List.modifyHead_cons]

/-- The lines that have been searched decide. -/
theorem grepPrints_iff_of_run {out : List (List UInt8)}
    (hrun : ∃ turns, ∀ fuel ≥ turns, doOneFile calls fuel s fname data = some ⟨out, 0⟩) :
    GrepPrints calls s fname data file ↔
      out = ((file.splitOn 10).filter fun l => s <:+: l).flatMap (report fname) := by
  obtain ⟨turns, hrun⟩ := hrun
  constructor
  · rintro ⟨turns', hprints⟩
    have hsame := hprints (turns + turns') (Nat.le_add_left _ _)
    rw [hrun _ (Nat.le_add_right _ _), Option.some.injEq, Outcome.mk.injEq] at hsame
    exact hsame.1
  · intro hsame
    exact ⟨turns, fun fuel hfuel => hsame ▸ hrun fuel hfuel⟩

/-- A string that begins with a character from 128 on is never found. -/
theorem grepPrints_iff_of_not_plain (hcalls : Delivers calls file) (hfile : 0 ∉ file)
    (hlines : ∀ l ∈ file.splitOn 10, l.length ≤ 1023) (hne : s ≠ []) (hs : 0 ∉ s)
    (hplain : ¬ Plain s) (fname : List UInt8) (data : Nat → UInt8) :
    GrepPrints calls s fname data file ↔ ∀ l ∈ file.splitOn 10, ¬ s <:+: l := by
  obtain ⟨ls, hrun, -⟩ := doOneFile_lines hcalls hfile hlines hne hs fname data
  rw [grepPrints_iff_of_run hrun, reports_of_not_plain hplain, eq_comm, matching_eq_nil_iff]

/-- Any other string is found in every line that has it, unless the line is cut. -/
theorem grepPrints_iff_of_plain (hcalls : Delivers calls file) (hfile : 0 ∉ file)
    (hlines : ∀ l ∈ file.splitOn 10, l.length ≤ 1023) (hne : s ≠ []) (hs : 0 ∉ s)
    (hplain : Plain s) (fname : List UInt8) (data : Nat → UInt8) :
    GrepPrints calls s fname data file ↔ ¬ (data 1024 = 10 ∧ CutMatch s file) := by
  obtain ⟨ls, hrun, hls⟩ := doOneFile_lines hcalls hfile hlines hne hs fname data
  rw [grepPrints_iff_of_run hrun, ← reports_of_plain hplain]
  rcases hls with ⟨rfl, hwhole⟩ | ⟨hbyte, k, hopen, rfl⟩
  · refine ⟨fun _ => ?_, fun _ => rfl⟩
    rintro ⟨hbyte, k, hopen, -, -⟩
    rcases hwhole with hother | hnone
    · exact hother hbyte
    · exact hnone k hopen
  · obtain ⟨ls, tail, first, others, htail, htake, hdrop, hfirst⟩ := splitOn_openBlock hopen
    rw [cutMatch_iff hopen, htake, hdrop, hfirst, reports_lines_cut_iff hne hplain fname htail,
      List.getLastD_concat, List.headD_cons]
    exact ⟨fun h hboth => h hboth.2, fun h hboth => h ⟨hbyte, hboth⟩⟩

/-- A line with the string is cut only when there is one. -/
theorem exists_line_of_cutMatch (h : CutMatch s file) : ∃ l ∈ file.splitOn 10, s <:+: l := by
  obtain ⟨k, hopen, -, hhas⟩ := h
  obtain ⟨ls, tail, first, others, -, htake, hdrop, hfirst⟩ := splitOn_openBlock hopen
  rw [htake, hdrop, List.getLastD_concat, List.headD_cons] at hhas
  refine ⟨tail ++ first, ?_, hhas⟩
  rw [hfirst]
  exact List.mem_append_right _ List.mem_cons_self

/-- **grep.** For every file without terminators and with lines of at most 1023 bytes, every string
that is not empty and every initial content of `data`, each line with the string is written exactly
once, whole and in order, and no other, exactly when no line has the string, or its first character
is below 128 and `data[1024]` is no newline that cuts a line with the string. -/
theorem grep_prints_iff (hcalls : Delivers calls file) (hfile : 0 ∉ file)
    (hlines : ∀ l ∈ file.splitOn 10, l.length ≤ 1023) (hne : s ≠ []) (hs : 0 ∉ s)
    (fname : List UInt8) (data : Nat → UInt8) :
    GrepPrints calls s fname data file ↔
      (∀ l ∈ file.splitOn 10, ¬ s <:+: l) ∨
        Plain s ∧ ¬ (data 1024 = 10 ∧ CutMatch s file) := by
  by_cases hplain : Plain s
  · rw [grepPrints_iff_of_plain hcalls hfile hlines hne hs hplain]
    constructor
    · intro h
      exact Or.inr ⟨hplain, h⟩
    · rintro (hnone | ⟨-, h⟩)
      · rintro ⟨-, hcut⟩
        obtain ⟨l, hl, hhas⟩ := exists_line_of_cutMatch hcut
        exact hnone l hl hhas
      · exact h
  · rw [grepPrints_iff_of_not_plain hcalls hfile hlines hne hs hplain]
    exact ⟨Or.inl, fun h => h.resolve_right fun h => hplain h.1⟩

end Output

/-- System calls on a file that is there. -/
def fileCalls (file : List UInt8) : Calls where
  fd := 2
  read pos n := some ((file.drop pos).take n)
  closed := 0

theorem fileCalls_delivers (file : List UInt8) : Delivers (fileCalls file) file where
  opened := by
    change (2 : Int) ≠ -1
    decide
  read_eq _ _ := rfl
  closed := by
    change (0 : Int) ≠ -1
    decide

/-- `cd` is the only line of `ab` and `cd` with a `d`, whatever is behind the buffer. -/
theorem grep_prints_second_line :
    GrepPrints (fileCalls [97, 98, 10, 99, 100, 10]) [100] [102] (fun _ => 10)
      [97, 98, 10, 99, 100, 10] := by
  refine (grep_prints_iff (fileCalls_delivers _) (by decide) (by decide) (by decide) (by decide) _
    _).mpr (Or.inr ⟨by decide, ?_⟩)
  rintro ⟨-, k, ⟨-, c, hc, -⟩, -⟩
  have hlt := (List.getElem?_eq_some_iff.mp hc).1
  rw [List.length_cons, List.length_cons, List.length_cons, List.length_cons, List.length_cons,
    List.length_cons, List.length_nil] at hlt
  omega

/-- A thousand times `a`, and a line of a hundred times `b` that the first block cuts. -/
def longFile : List UInt8 := List.replicate 1000 97 ++ 10 :: List.replicate 100 98

/-- A line of one accented letter is not found by its first byte, and a line that the first block
cuts is written in two pieces if there is a newline behind the buffer. -/
theorem grep_misses_lines :
    ¬ GrepPrints (fileCalls [195, 169, 10]) [195] [102] (fun _ => 0) [195, 169, 10] ∧
      ¬ GrepPrints (fileCalls longFile) [98] [102] (fun _ => 10) longFile := by
  constructor
  · rw [grepPrints_iff_of_not_plain (fileCalls_delivers _) (by decide) (by decide) (by decide)
      (by decide) (by decide)]
    intro hnone
    exact hnone [195, 169] (by decide) (by decide)
  · rw [grepPrints_iff_of_plain (fileCalls_delivers _) (by decide +kernel) (by decide +kernel)
      (by decide) (by decide) (by decide)]
    refine fun h => h ⟨rfl, 0, ⟨fun j hj => absurd hj (Nat.not_lt_zero j), 98, ?_, by decide⟩, ?_, ?_⟩
    · decide +kernel
    · decide +kernel
    · decide +kernel

end LinuxBasedOS.Programs

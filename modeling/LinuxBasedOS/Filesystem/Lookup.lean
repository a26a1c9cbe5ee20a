import LinuxBasedOS.Filesystem.Image

/-!
# Name lookup against the names the directory stores

`Stores img i name` says what slot `i` is meant to hold: its 32-byte field, read up to its
first NUL, is `name`. The lookup compares 31 bytes and scans one slot more than `num_dir`,
so it differs from the directory in two ways. A slot that agrees with a name of 31 bytes
or more on the first 31 bytes is taken for it (`NearMiss`), and the slot just past the
directory is searched, which for a full directory lies outside the array.

`lookup_exact_iff` says that these are the only two ways: the lookup answers for the
directory exactly when neither is met.
-/

namespace LinuxBasedOS.Filesystem

open Lib

/-- Slot `i` stores `name`: the bytes of its field before the first NUL, or all 32, are
the bytes of `name`. -/
def Stores (img : Image) (i : Nat) (name : List UInt8) : Prop :=
  name.length ≤ filenameLimit ∧
    (∀ k < name.length, (dentryAt img i).filename k = cstr name k) ∧
    (name.length < filenameLimit → (dentryAt img i).filename name.length = 0)

/-- Slot `i` agrees with a name of at least 31 bytes on the first 31 bytes, and stores
another name. -/
def NearMiss (img : Image) (i : Nat) (name : List UInt8) : Prop :=
  filenameLimit - 1 ≤ name.length ∧
    (∀ k < filenameLimit - 1, (dentryAt img i).filename k = cstr name k) ∧ ¬ Stores img i name

instance (img : Image) (i : Nat) (name : List UInt8) : Decidable (Stores img i name) :=
  inferInstanceAs (Decidable (_ ∧ _ ∧ _))

instance (img : Image) (i : Nat) (name : List UInt8) : Decidable (NearMiss img i name) :=
  inferInstanceAs (Decidable (_ ∧ _ ∧ _))

/-- What the lookup is for: it succeeds exactly on the names of the directory, with the
type and inode of the first entry of that name, stops only at an entry of the directory
that stores the name, and reads no slot outside the array. -/
structure LookupExact (img : Image) (name : List UInt8) : Prop where
  found_iff : ∀ dentry, (readDentryByName img (cstr name) dentry).1 = 0 ↔
    ∃ i < numDir img, Stores img i name
  first_entry : ∀ dentry, ∀ i < numDir img, Stores img i name → (∀ j < i, ¬ Stores img j name) →
    (readDentryByName img (cstr name) dentry).2.filetype = (dentryAt img i).filetype ∧
      (readDentryByName img (cstr name) dentry).2.idxInode = (dentryAt img i).idxInode
  stops_at : ∀ i, matchedSlot img (cstr name) = some i → i < numDir img ∧ Stores img i name
  in_array : ∀ i ∈ slotsRead img (cstr name), i < dentrySlots

/-- The directory holds the name and no near miss stands before it, or the directory is
not full and neither it nor the slot after it holds the name or a near miss. -/
def LookupSafe (img : Image) (name : List UInt8) : Prop :=
  (∃ i < numDir img, Stores img i name ∧ ∀ j < i, ¬ NearMiss img j name) ∨
    (numDir img < dentrySlots ∧
      ∀ j ≤ numDir img, ¬ Stores img j name ∧ ¬ NearMiss img j name)

/-! ## What the comparison accepts -/

theorem nameMatches_iff_agree {img : Image} {fname : Nat → UInt8} {i : Nat} :
    nameMatches img fname i = true ↔
      ∀ k < filenameLimit - 1, (∀ j < k, fname j ≠ 0) →
        fname k = (dentryAt img i).filename k := by
  unfold nameMatches
  rw [beq_iff_eq, strncmp_eq_zero_iff]

theorem nameMatches_of_stores {img : Image} {i : Nat} {name : List UInt8}
    (h : Stores img i name) : nameMatches img (cstr name) i = true := by
  obtain ⟨hlen, hbytes, hend⟩ := h
  refine nameMatches_iff_agree.mpr fun k hk hj => ?_
  rcases Nat.lt_trichotomy k name.length with hlt | rfl | hgt
  · exact (hbytes k hlt).symm
  · rw [hend (by unfold filenameLimit at *; omega), cstr_of_le (Nat.le_refl _)]
  · exact absurd (cstr_of_le (Nat.le_refl _)) (hj name.length hgt)

/-- The lookup takes a slot for the name exactly when the slot stores the name or is a
near miss. -/
theorem nameMatches_iff {img : Image} {i : Nat} {name : List UInt8} (hname : 0 ∉ name) :
    nameMatches img (cstr name) i = true ↔ Stores img i name ∨ NearMiss img i name := by
  constructor
  · intro hm
    have hagree := nameMatches_iff_agree.mp hm
    have hbytes : ∀ k < filenameLimit - 1, k ≤ name.length →
        (dentryAt img i).filename k = cstr name k := by
      intro k hk hkn
      exact (hagree k hk fun j hj => cstr_ne_zero hname (by omega)).symm
    by_cases hlen : filenameLimit - 1 ≤ name.length
    · by_cases hs : Stores img i name
      · exact Or.inl hs
      · exact Or.inr ⟨hlen, fun k hk => hbytes k hk (by omega), hs⟩
    · -- the terminator of a short name is among the compared bytes
      refine Or.inl ⟨by omega, fun k hk => hbytes k (by omega) (by omega), fun _ => ?_⟩
      rw [hbytes name.length (by omega) (Nat.le_refl _), cstr_of_le (Nat.le_refl _)]
  · rintro (hs | ⟨hlen, hbytes, -⟩)
    · exact nameMatches_of_stores hs
    · exact nameMatches_iff_agree.mpr fun k hk _ => (hbytes k hk).symm

theorem nameMatches_eq_false_iff {img : Image} {i : Nat} {name : List UInt8}
    (hname : 0 ∉ name) :
    nameMatches img (cstr name) i = false ↔ ¬ Stores img i name ∧ ¬ NearMiss img i name := by
  rw [← Bool.not_eq_true, nameMatches_iff hname, not_or]

/-! ## The two cases of the condition -/

theorem readDentryByName_of_some {img : Image} {fname : Nat → UInt8} {i : Nat}
    (h : matchedSlot img fname = some i) (dentry : Dentry) :
    (readDentryByName img fname dentry).1 = 0 ∧
      (readDentryByName img fname dentry).2.filetype = (dentryAt img i).filetype ∧
      (readDentryByName img fname dentry).2.idxInode = (dentryAt img i).idxInode := by
  simp [readDentryByName, h]

theorem readDentryByName_of_none {img : Image} {fname : Nat → UInt8}
    (h : matchedSlot img fname = none) (dentry : Dentry) :
    (readDentryByName img fname dentry).1 = -1 := by
  simp [readDentryByName, h]

/-- The first slot that stores the name is the one found, when no near miss stands
before it. -/
theorem matchedSlot_of_first {img : Image} {i : Nat} {name : List UInt8} (hname : 0 ∉ name)
    (hi : i ≤ numDir img) (hs : Stores img i name)
    (hbefore : ∀ j < i, ¬ Stores img j name ∧ ¬ NearMiss img j name) :
    matchedSlot img (cstr name) = some i :=
  matchedSlot_eq_some.mpr ⟨hi, nameMatches_of_stores hs,
    fun j hj => (nameMatches_eq_false_iff hname).mpr (hbefore j hj)⟩

theorem exists_first_storing {img : Image} {i : Nat} {name : List UInt8}
    (hs : Stores img i name) :
    ∃ m ≤ i, Stores img m name ∧ ∀ j < m, ¬ Stores img j name := by
  classical
  have hex : ∃ m, Stores img m name := ⟨i, hs⟩
  exact ⟨Nat.find hex, Nat.find_min' hex hs, Nat.find_spec hex, fun j hj => Nat.find_min hex hj⟩

theorem lookupExact_of_entry {img : Image} {i : Nat} {name : List UInt8} (hname : 0 ∉ name)
    (hdir : numDir img ≤ dentrySlots) (hi : i < numDir img) (hs : Stores img i name)
    (hnear : ∀ j < i, ¬ NearMiss img j name) : LookupExact img name := by
  obtain ⟨m, hmi, hm, hfirst⟩ := exists_first_storing hs
  have hmatch := matchedSlot_of_first hname (by omega) hm
    (fun j hj => ⟨hfirst j hj, hnear j (by omega)⟩)
  refine ⟨fun dentry => ?_, fun dentry j _ hj hbefore => ?_, fun j hj => ?_, fun j hj => ?_⟩
  · exact ⟨fun _ => ⟨i, hi, hs⟩, fun _ => (readDentryByName_of_some hmatch dentry).1⟩
  · have hjm : j = m := by
      rcases Nat.lt_trichotomy j m with hlt | heq | hgt
      · exact absurd hj (hfirst j hlt)
      · exact heq
      · exact absurd hm (hbefore m hgt)
    rw [hjm]
    exact (readDentryByName_of_some hmatch dentry).2
  · rw [hmatch] at hj
    cases hj
    exact ⟨by omega, hm⟩
  · obtain ⟨-, hbefore⟩ := mem_slotsRead.mp hj
    by_contra hlt
    have hfalse := hbefore m (by omega)
    rw [nameMatches_of_stores hm] at hfalse
    cases hfalse

theorem lookupExact_of_absent {img : Image} {name : List UInt8} (hname : 0 ∉ name)
    (hdir : numDir img < dentrySlots)
    (habsent : ∀ j ≤ numDir img, ¬ Stores img j name ∧ ¬ NearMiss img j name) :
    LookupExact img name := by
  have hnone : matchedSlot img (cstr name) = none :=
    matchedSlot_eq_none.mpr fun j hj => (nameMatches_eq_false_iff hname).mpr (habsent j hj)
  refine ⟨fun dentry => ?_, fun _ j hj hs _ => ?_, fun j hj => ?_, fun j hj => ?_⟩
  · rw [readDentryByName_of_none hnone]
    constructor
    · intro h
      omega
    · rintro ⟨j, hj, hs⟩
      exact absurd hs (habsent j (by omega)).1
  · exact absurd hs (habsent j (by omega)).1
  · rw [hnone] at hj
    cases hj
  · have := (mem_slotsRead.mp hj).1
    omega

/-! ## Names in memory -/

/-- The comparison does not look past the terminator of the name. -/
theorem nameMatches_of_holdsAt {img : Image} {fname fname' : Nat → UInt8} {name : List UInt8}
    {i : Nat} (h : HoldsAt fname 0 name) (h' : HoldsAt fname' 0 name)
    (hm : nameMatches img fname i = true) : nameMatches img fname' i = true := by
  have hsame : ∀ j ≤ name.length, fname j = fname' j := by
    intro j hj
    have hj0 := h j hj
    have hj1 := h' j hj
    rw [Nat.zero_add] at hj0 hj1
    rw [hj0, hj1]
  rw [nameMatches_iff_agree] at hm ⊢
  intro k hk hne
  have hle : k ≤ name.length := by
    by_contra hlt
    have hend := h' name.length (Nat.le_refl _)
    rw [Nat.zero_add, cstr_of_le (Nat.le_refl _)] at hend
    exact hne name.length (by omega) hend
  rw [← hsame k hle]
  refine hm k hk ?_
  intro j hj
  rw [hsame j (by omega)]
  exact hne j hj

theorem matchedSlot_of_holdsAt {img : Image} {fname fname' : Nat → UInt8} {name : List UInt8}
    (h : HoldsAt fname 0 name) (h' : HoldsAt fname' 0 name) :
    matchedSlot img fname = matchedSlot img fname' := by
  have hsame : nameMatches img fname = nameMatches img fname' := by
    funext i
    rw [Bool.eq_iff_iff]
    exact ⟨nameMatches_of_holdsAt h h', nameMatches_of_holdsAt h' h⟩
  rw [matchedSlot_eq_find, matchedSlot_eq_find, hsame]

/-! ## The condition is exact -/

theorem lookupSafe_of_exact {img : Image} {name : List UInt8} (hname : 0 ∉ name)
    (h : LookupExact img name) : LookupSafe img name := by
  cases hmatch : matchedSlot img (cstr name) with
  | some i =>
    obtain ⟨hi, hs⟩ := h.stops_at i hmatch
    obtain ⟨-, -, hbefore⟩ := matchedSlot_eq_some.mp hmatch
    exact Or.inl ⟨i, hi, hs, fun j hj => ((nameMatches_eq_false_iff hname).mp (hbefore j hj)).2⟩
  | none =>
    -- the whole scan was in vain, so it has read the slot past the directory
    have hall := matchedSlot_eq_none.mp hmatch
    have hread : numDir img ∈ slotsRead img (cstr name) :=
      mem_slotsRead.mpr ⟨Nat.le_refl _, fun k hk => hall k (Nat.le_of_lt hk)⟩
    exact Or.inr ⟨h.in_array _ hread, fun j hj => (nameMatches_eq_false_iff hname).mp (hall j hj)⟩

/-- **Name lookup.** For every boot block of at most 63 entries and every name, the lookup
answers for the names of the directory exactly when it is safe. -/
theorem lookup_exact_iff {img : Image} {name : List UInt8} (hdir : numDir img ≤ dentrySlots)
    (hname : 0 ∉ name) : LookupExact img name ↔ LookupSafe img name := by
  constructor
  · exact lookupSafe_of_exact hname
  · rintro (⟨i, hi, hs, hnear⟩ | ⟨hlt, habsent⟩)
    · exact lookupExact_of_entry hname hdir hi hs hnear
    · exact lookupExact_of_absent hname hlt habsent

/-- A directory of the one entry `.`; the slot after it still holds the name `old`. -/
def staleSlotImage : Image := fun addr =>
  if addr = 0 then 1
  else if addr = 64 then 46
  else if addr = 128 then 111
  else if addr = 129 then 108
  else if addr = 130 then 100
  else 0

/-- The stored name `.` is looked up as the directory says. -/
theorem lookup_exact_dot :
    numDir staleSlotImage ≤ dentrySlots ∧ (0 : UInt8) ∉ [46] ∧ LookupExact staleSlotImage [46] :=
  ⟨by decide, by decide, (lookup_exact_iff (by decide) (by decide)).mpr
    (Or.inl ⟨0, by decide, by decide, by decide⟩)⟩

/-- The name `old` is found in the slot past the directory. -/
theorem lookup_finds_stale_slot :
    numDir staleSlotImage ≤ dentrySlots ∧ (0 : UInt8) ∉ [111, 108, 100] ∧
      ¬ LookupExact staleSlotImage [111, 108, 100] := by
  refine ⟨by decide, by decide, fun h => ?_⟩
  have hfound : matchedSlot staleSlotImage (cstr [111, 108, 100]) = some 1 := by decide
  exact absurd (h.stops_at 1 hfound).1 (by decide)

end LinuxBasedOS.Filesystem

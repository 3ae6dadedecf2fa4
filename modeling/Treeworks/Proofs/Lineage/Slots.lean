import Mathlib.RingTheory.ZMod.UnitsCyclic
import Treeworks.Slots

/-! Tables of slots keep what is put into them. The places that are looked at for an item lead through the whole table,
so an item finds a free slot as long as there is one; a table that grows, or is copied, has the same items. -/
namespace Treeworks.Slots
variable {α : Type}

/-! ### The way through a table -/

/-- The place that is looked at after some others. -/
def probe (size : Nat) : Nat → Nat → Nat → Nat
  | 0, place, _ => place
  | n + 1, place, rest => probe size n ((place * 5 + 1 + rest / 32) % size) (rest / 32)

theorem probe_lt {size : Nat} (n : Nat) {place : Nat} (hplace : place < size) (rest : Nat) :
    probe size n place rest < size := by
  induction n generalizing place rest with
  | zero => exact hplace
  | succ n ih => exact ih (Nat.mod_lt _ (Nat.zero_lt_of_lt hplace)) _

theorem probe_add (size m n place rest : Nat) :
    probe size (m + n) place rest = probe size n (probe size m place rest) (rest / 32 ^ m) := by
  induction m generalizing place rest with
  | zero => simp [probe]
  | succ m ih =>
    have hrest : rest / 32 / 32 ^ m = rest / 32 ^ (m + 1) := by
      rw [Nat.div_div_eq_div_mul, pow_succ, Nat.mul_comm]
    rw [Nat.succ_add]
    exact (ih _ _).trans (by rw [hrest]; rfl)

/-- When no digits are left, four times a place and one more is multiplied by five. -/
theorem four_mul_probe (k n place : Nat) :
    ((4 * probe (2 ^ k) n place 0 + 1 : Nat) : ZMod (2 ^ (k + 2))) = 5 ^ n * ((4 * place + 1 : Nat) : ZMod (2 ^ (k + 2))) := by
  induction n generalizing place with
  | zero => simp [probe]
  | succ n ih =>
    -- The remainder that is taken at each place is lost four times over, which is nothing here.
    have hmod : 4 * ((place * 5 + 1) % 2 ^ k) ≡ 4 * (place * 5 + 1) [MOD 2 ^ (k + 2)] := by
      rw [show 2 ^ (k + 2) = 4 * 2 ^ k by ring]
      exact (Nat.mod_modEq _ _).mul_left' 4
    have hstep : ((4 * ((place * 5 + 1) % 2 ^ k) + 1 : Nat) : ZMod (2 ^ (k + 2))) =
        5 * ((4 * place + 1 : Nat) : ZMod (2 ^ (k + 2))) := by
      rw [(ZMod.natCast_eq_natCast_iff _ _ _).mpr (hmod.add_right 1)]
      push_cast
      ring
    calc ((4 * probe (2 ^ k) (n + 1) place 0 + 1 : Nat) : ZMod (2 ^ (k + 2)))
        = 5 ^ n * ((4 * ((place * 5 + 1) % 2 ^ k) + 1 : Nat) : ZMod (2 ^ (k + 2))) := ih _
      _ = 5 ^ (n + 1) * ((4 * place + 1 : Nat) : ZMod (2 ^ (k + 2))) := by rw [hstep]; ring

/-- When no digits are left, no place comes twice before all have come. -/
theorem probe_injOn (k place : Nat) : Set.InjOn (fun n => probe (2 ^ k) n place 0) (Set.Iio (2 ^ k)) := by
  intro m hm n hn heq
  have hunit : IsUnit ((4 * place + 1 : Nat) : ZMod (2 ^ (k + 2))) := by
    rw [ZMod.isUnit_iff_coprime]
    exact (Nat.coprime_two_right.mpr ⟨2 * place, by ring⟩).pow_right _
  have hpow : (5 : ZMod (2 ^ (k + 2))) ^ m = 5 ^ n := by
    apply hunit.mul_right_cancel
    rw [← four_mul_probe, ← four_mul_probe]
    exact congrArg (fun p => ((4 * p + 1 : Nat) : ZMod (2 ^ (k + 2)))) heq
  have horder : orderOf (5 : ZMod (2 ^ (k + 2))) = 2 ^ k := ZMod.orderOf_five k
  exact pow_injOn_Iio_orderOf (horder.symm ▸ hm) (horder.symm ▸ hn) hpow

/-- When no digits are left, every place comes. -/
theorem exists_probe_eq {k place i : Nat} (hplace : place < 2 ^ k) (hi : i < 2 ^ k) :
    ∃ n < 2 ^ k, probe (2 ^ k) n place 0 = i := by
  have hinj : Set.InjOn (fun n => probe (2 ^ k) n place 0) (Finset.range (2 ^ k)) := by
    rw [Finset.coe_range]
    exact probe_injOn k place
  have hmaps : Set.MapsTo (fun n => probe (2 ^ k) n place 0) (Finset.range (2 ^ k)) (Finset.range (2 ^ k)) :=
    fun n _ => Finset.mem_coe.mpr (Finset.mem_range.mpr (probe_lt n hplace 0))
  obtain ⟨n, hn, heq⟩ := Finset.surjOn_of_injOn_of_card_le _ hmaps hinj le_rfl
    (Finset.mem_coe.mpr (Finset.mem_range.mpr hi))
  exact ⟨n, Finset.mem_range.mp (Finset.mem_coe.mp hn), heq⟩

/-! ### Free slots -/

variable {t : Slots α}

/-- Whether nothing is in a slot. -/
def IsFree (t : Slots α) (i : Nat) : Prop := t.slots[i]? = some none

theorem isNone_getD_iff {i : Nat} (hi : i < t.slots.size) : (t.slots.getD i none).isNone ↔ t.IsFree i := by
  rw [IsFree, Array.getD_eq_getD_getElem?, Array.getElem?_eq_getElem hi]
  simp

theorem isFree_of_freeFrom? {place near free : Nat} (hreach : place + near < t.slots.size)
    (h : t.freeFrom? place near = some free) : t.IsFree free := by
  induction near generalizing place with
  | zero =>
    rw [freeFrom?] at h
    split at h
    · cases h
      exact (isNone_getD_iff hreach).mp ‹_›
    · cases h
  | succ near ih =>
    rw [freeFrom?] at h
    split at h
    · cases h
      exact (isNone_getD_iff (by omega)).mp ‹_›
    · exact ih (by omega) h

theorem not_isFree_of_freeFrom?_eq_none {place near : Nat} (hplace : place < t.slots.size)
    (h : t.freeFrom? place near = none) : ¬ t.IsFree place := by
  intro hfree
  have hnone := (isNone_getD_iff hplace).mpr hfree
  cases near <;> rw [freeFrom?, if_pos hnone] at h <;> cases h

theorem add_reach_lt {place : Nat} (hplace : place < t.slots.size) : place + t.reach place < t.slots.size := by
  unfold reach
  split <;> omega

/-- A search ends at a free slot if it would come to one. -/
theorem isFree_search {n fuel place rest : Nat} (hplace : place < t.slots.size) (hn : n < fuel)
    (hfree : t.IsFree (probe t.slots.size n place rest)) : t.IsFree (t.search fuel place rest) := by
  induction fuel generalizing n place rest with
  | zero => cases hn
  | succ fuel ih =>
    rw [search]
    split
    · exact isFree_of_freeFrom? (add_reach_lt hplace) ‹_›
    · cases n with
      | zero => exact absurd hfree (not_isFree_of_freeFrom?_eq_none hplace ‹_›)
      | succ n => exact ih (Nat.mod_lt _ (Nat.zero_lt_of_lt hplace)) (Nat.lt_of_succ_lt_succ hn) hfree

/-- As long as there is a free slot, the search for a word's place ends at one: after some places no digits of the word
are left, and from there on all places come. -/
theorem isFree_search_of_isFree {k i n : Nat} (hsize : t.slots.size = 2 ^ k) (hn : n < 2 ^ 64) (hi : t.IsFree i) :
    t.IsFree (t.search (t.slots.size + 16) (n % t.slots.size) n) := by
  have hlt : i < t.slots.size := by
    obtain ⟨h, -⟩ := Array.getElem?_eq_some_iff.mp hi
    exact h
  have hplace : n % t.slots.size < t.slots.size := Nat.mod_lt _ (by omega)
  have hlate : probe t.slots.size 16 (n % t.slots.size) n < t.slots.size := probe_lt 16 hplace n
  have hdigits : n / 32 ^ 16 = 0 := Nat.div_eq_of_lt (hn.trans_le (by norm_num))
  obtain ⟨m, hm, hprobe⟩ := exists_probe_eq (hsize ▸ hlate) (hsize ▸ hlt)
  apply isFree_search hplace (n := 16 + m) (by omega)
  rw [probe_add, hdigits, hsize, hprobe]
  exact hi

/-! ### Items -/

/-- To fill a free slot adds its item to the others. -/
theorem entries_fill {i : Nat} (hi : t.IsFree i) (item : Nat × α) (n : Nat) :
    (Slots.mk (t.slots.set! i (some item)) n).entries.Perm (item :: t.entries) := by
  obtain ⟨hlt, hget⟩ := Array.getElem?_eq_some_iff.mp hi
  have hlt' : i < t.slots.toList.length := by simpa using hlt
  have hnone : t.slots.toList[i] = none := by simpa using hget
  have hold : t.entries = (t.slots.toList.take i).filterMap id ++ (t.slots.toList.drop (i + 1)).filterMap id := by
    calc t.entries = (t.slots.toList.take i ++ t.slots.toList.drop i).filterMap id := by
            rw [List.take_append_drop, entries]
      _ = _ := by rw [List.drop_eq_getElem_cons hlt', hnone, List.filterMap_append]; rfl
  have hnew : (Slots.mk (t.slots.set! i (some item)) n).entries =
      (t.slots.toList.take i).filterMap id ++ item :: (t.slots.toList.drop (i + 1)).filterMap id := by
    simp only [entries, Array.set!_eq_setIfInBounds, Array.toList_setIfInBounds]
    rw [List.set_eq_take_append_cons_drop, if_pos hlt', List.filterMap_append]
    rfl
  rw [hold, hnew]
  exact List.perm_middle

theorem exists_isFree (h : t.entries.length < t.slots.size) : ∃ i, t.IsFree i := by
  by_contra hnone
  have hall : ∀ o ∈ t.slots.toList, (id o : Option (Nat × α)).isSome = true := by
    intro o ho
    obtain ⟨i, hi, hget⟩ := List.getElem_of_mem ho
    cases o with
    | some item => rfl
    | none => exact absurd ⟨i, Array.getElem?_eq_some_iff.mpr ⟨by simpa using hi, by simpa using hget⟩⟩ hnone
  have hlength := List.filterMap_length_eq_length.mpr hall
  rw [entries, hlength] at h
  simp at h

/-- Whether items have their places: the size is a power of two from eight on, and counted are the items that stand
there, whose numbers are words. -/
structure Counts (t : Slots α) : Prop where
  size : ∃ k, t.slots.size = 2 ^ k
  taken : t.taken = t.entries.length
  words : ∀ e ∈ t.entries, e.1 < 2 ^ 64

theorem size_put (t : Slots α) (item : Nat × α) : (t.put item).slots.size = t.slots.size := by
  simp [put]

/-- A table that is not full takes one item more. -/
theorem Counts.put (h : t.Counts) (hroom : t.taken < t.slots.size) {item : Nat × α} (hitem : item.1 < 2 ^ 64) :
    (t.put item).Counts ∧ (t.put item).entries.Perm (item :: t.entries) := by
  obtain ⟨k, hk⟩ := h.size
  obtain ⟨i, hi⟩ := exists_isFree (h.taken ▸ hroom)
  have hperm : (t.put item).entries.Perm (item :: t.entries) :=
    entries_fill (isFree_search_of_isFree hk hitem hi) item _
  refine ⟨⟨⟨k, (size_put t item).trans hk⟩, ?_, ?_⟩, hperm⟩
  · rw [hperm.length_eq, List.length_cons, ← h.taken]
    rfl
  · intro e he
    rcases List.mem_cons.mp (hperm.mem_iff.mp he) with rfl | he
    · exact hitem
    · exact h.words e he

/-- A table that has room for some items takes them all. -/
theorem Counts.puts (h : t.Counts) {items : List (Nat × α)} (hroom : t.taken + items.length ≤ t.slots.size)
    (hitems : ∀ e ∈ items, e.1 < 2 ^ 64) :
    (items.foldl Slots.put t).Counts ∧ (items.foldl Slots.put t).slots.size = t.slots.size ∧
      (items.foldl Slots.put t).entries.Perm (items ++ t.entries) := by
  induction items generalizing t with
  | nil => exact ⟨h, rfl, .refl _⟩
  | cons item items ih =>
    rw [List.length_cons] at hroom
    obtain ⟨hitem, hitems⟩ := List.forall_mem_cons.mp hitems
    obtain ⟨hput, hperm⟩ := h.put (by omega) hitem
    have hroom' : (t.put item).taken + items.length ≤ (t.put item).slots.size := by
      rw [size_put]
      exact (Nat.succ_add_eq_add_succ _ _).trans_le hroom
    obtain ⟨hcounts, hsize, hperms⟩ := ih hput hroom' hitems
    refine ⟨hcounts, hsize.trans (size_put t item), hperms.trans ?_⟩
    exact (hperm.append_left items).trans List.perm_middle

theorem counts_empty (k : Nat) : (empty (2 ^ k) : Slots α).Counts where
  size := ⟨k, by simp [empty]⟩
  taken := by simp [empty, entries]
  words := by simp [empty, entries]

theorem entries_empty (n : Nat) : (empty n : Slots α).entries = [] := by simp [empty, entries]

/-! ### Sizes -/

/-- Doubling often enough leads above a number. -/
theorem sizeAbove_spec {n fuel k : Nat} (h : n < 2 ^ (k + fuel)) :
    n < sizeAbove n fuel (2 ^ k) ∧ ∃ j, sizeAbove n fuel (2 ^ k) = 2 ^ j := by
  induction fuel generalizing k with
  | zero => exact ⟨h, k, rfl⟩
  | succ fuel ih =>
    rw [sizeAbove]
    split
    · exact ⟨‹_›, k, rfl⟩
    · rw [← pow_succ']
      exact ih (by rwa [Nat.add_right_comm])

theorem lt_sizeAbove (n : Nat) : n < sizeAbove n n 8 ∧ ∃ j, sizeAbove n n 8 = 2 ^ j := by
  apply sizeAbove_spec (k := 3)
  calc n < 2 ^ n := Nat.lt_two_pow_self
    _ ≤ 2 ^ (3 + n) := Nat.pow_le_pow_right (by decide) (Nat.le_add_left n 3)

/-- Whether less than three fifths of a table are taken, by items that have their places. -/
structure Fits (t : Slots α) : Prop extends t.Counts where
  room : t.taken * 5 < (t.slots.size - 1) * 3

theorem fits_empty : (empty 8 : Slots α).Fits := ⟨counts_empty 3, by simp [empty]⟩

/-- The items of a table that fits can be put into another one that has room for them. -/
theorem Counts.rebuilt (h : t.Counts) {size : Nat} (hsize : ∃ k, size = 2 ^ k) (hroom : t.taken * 5 < (size - 1) * 3) :
    (t.entries.foldl Slots.put (empty size)).Fits ∧ (t.entries.foldl Slots.put (empty size)).entries.Perm t.entries := by
  obtain ⟨k, rfl⟩ := hsize
  have hempty : (empty (2 ^ k) : Slots α).slots.size = 2 ^ k := by simp [empty]
  have htaken := h.taken
  obtain ⟨hcounts, hsame, hperm⟩ := (counts_empty k).puts (by
    rw [hempty, show (empty (2 ^ k) : Slots α).taken = 0 from rfl]
    omega) h.words
  rw [entries_empty, List.append_nil] at hperm
  refine ⟨⟨hcounts, ?_⟩, hperm⟩
  rw [hsame, hempty, hcounts.taken, hperm.length_eq, ← htaken]
  exact hroom

/-- A table takes one item more, and grows if need be. -/
theorem Fits.insert (h : t.Fits) {item : Nat × α} (hitem : item.1 < 2 ^ 64) :
    (t.insert item).Fits ∧ (t.insert item).entries.Perm (item :: t.entries) := by
  have hroom := h.room
  obtain ⟨hput, hperm⟩ := h.toCounts.put (by omega) hitem
  unfold Slots.insert
  dsimp only
  split
  · exact ⟨⟨hput, ‹_›⟩, hperm⟩
  · obtain ⟨hlt, hpow⟩ := lt_sizeAbove (4 * (t.put item).taken)
    have hpos : 0 < (t.put item).taken := Nat.succ_pos _
    obtain ⟨hfits, hrebuilt⟩ := hput.rebuilt hpow (by omega)
    exact ⟨hfits, hrebuilt.trans hperm⟩

/-- A copy of a table has its items. -/
theorem Fits.copied (h : t.Fits) : t.copied.Fits ∧ t.copied.entries.Perm t.entries := by
  -- Both sizes that a copy can have leave enough room.
  have hsize : ∃ size, (∃ k, size = 2 ^ k) ∧ t.taken * 5 < (size - 1) * 3 ∧
      t.copied = if size = t.slots.size then t else t.entries.foldl Slots.put (empty size) := by
    refine ⟨if t.taken * 5 < 21 then 8 else sizeAbove (2 * t.taken) (2 * t.taken) 8, ?_, ?_, rfl⟩
    · split
      · exact ⟨3, rfl⟩
      · exact (lt_sizeAbove _).2
    · have hlt := (lt_sizeAbove (2 * t.taken)).1
      split <;> omega
  obtain ⟨size, hpow, hroom, hcopied⟩ := hsize
  rw [hcopied]
  split
  · exact ⟨h, .refl _⟩
  · exact h.rebuilt hpow hroom

end Treeworks.Slots

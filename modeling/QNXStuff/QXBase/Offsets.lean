import QNXStuff.QXBase.PoolInvariant

/-! Where the pages are in the data file: the offsets that are computed when a page is written back,
when it is locked, and when a table is loaded. -/

namespace QNXStuff.QXBase

open Memory

/-- The widths of `off_t`. -/
inductive OffT where
  | int32
  | int64

/-- A `uint32_t` as an `off_t`. -/
def OffT.ofUint : OffT → Nat → Int
  | .int32, word => signed 4 word
  | .int64, word => word

/-- `Size`: the `uint32_t` product of `RowLen` and `PageRows`. -/
def pageSizeOf (rowLen pageRows : Nat) : Nat := rowLen * pageRows % 2 ^ 32

/-- `int P_Offset = S_Page->Size * S_Page->Index` -/
def syncOffset (size index : Nat) : Int := signed 4 (size * index % 2 ^ 32)

/-- `nPageID*RPage->Size` -/
def lockOffset (offT : OffT) (nPageID size : Nat) : Int := offT.ofUint (nPageID * size % 2 ^ 32)

/-- `CurTbl->Pages->Index*CurTbl->Pages->Size` -/
def selectOffset (offT : OffT) (index size : Nat) : Int := offT.ofUint (index * size % 2 ^ 32)

/-- `lseek` with `SEEK_SET`: there is no position in front of the file. -/
def seekSet (offset : Int) : Option Nat := if 0 ≤ offset then some offset.toNat else none

/-- The pages of a table up to a last one: each is written to the place it is read from, which is
where its rows are, and the places of different pages do not meet. -/
structure PagesApart (offT : OffT) (rowLen pageRows last : Nat) : Prop where
  size : pageSizeOf rowLen pageRows = rowLen * pageRows
  written : ∀ index ≤ last, seekSet (syncOffset (pageSizeOf rowLen pageRows) index) =
    some (index * (rowLen * pageRows))
  locked : ∀ index ≤ last, seekSet (lockOffset offT index (pageSizeOf rowLen pageRows)) =
    some (index * (rowLen * pageRows))
  selected : ∀ index ≤ last, seekSet (selectOffset offT index (pageSizeOf rowLen pageRows)) =
    some (index * (rowLen * pageRows))
  apart : ∀ index ≤ last, ∀ other ≤ last, other ≠ index → ∀ position < rowLen * pageRows,
    index * (rowLen * pageRows) + position < other * (rowLen * pageRows) ∨
      other * (rowLen * pageRows) + rowLen * pageRows ≤ index * (rowLen * pageRows) + position
  kept : ∀ (page synced : PageBody) (file file' : File), page.size = pageSizeOf rowLen pageRows →
    page.index ≤ last → pageSync page file = .ok (synced, file') →
    ∀ index ≤ last, index ≠ page.index → ∀ position < rowLen * pageRows,
      index * (rowLen * pageRows) + position < file.size →
      file'.byte (index * (rowLen * pageRows) + position) =
        file.byte (index * (rowLen * pageRows) + position)

theorem seekSet_signed (word : Nat) (fits : word < 2 ^ 32) :
    seekSet (signed 4 word) = if word < 2 ^ 31 then some word else none := by
  unfold seekSet signed
  by_cases low : word < 2 ^ 31
  · rw [if_pos (show word < 256 ^ 4 / 2 from low), if_pos low, if_pos (Int.natCast_nonneg word)]
    rfl
  · have negative : ¬ (0 : Int) ≤ (word : Int) - 256 ^ 4 := by omega
    rw [if_neg (show ¬ word < 256 ^ 4 / 2 from low), if_neg low, if_neg negative]

theorem seekSet_sync (size index : Nat) :
    seekSet (syncOffset size index) =
      if size * index % 2 ^ 32 < 2 ^ 31 then some (size * index % 2 ^ 32) else none :=
  seekSet_signed _ (Nat.mod_lt _ (by decide))

/-- A position that is not negative as an `int` is the same for every `off_t`. -/
theorem seekSet_ofUint (offT : OffT) {word : Nat} (low : word < 2 ^ 31) :
    seekSet (offT.ofUint word) = some word := by
  cases offT with
  | int32 =>
    unfold OffT.ofUint
    rw [seekSet_signed word (by omega), if_pos low]
  | int64 =>
    unfold OffT.ofUint seekSet
    rw [if_pos (Int.natCast_nonneg word)]
    rfl

/-- What writing back a page can do to the data file. -/
theorem pageSync_file {page synced : PageBody} {file file' : File}
    (done : pageSync page file = .ok (synced, file')) :
    file' = file ∨ file' = file.pwrite (page.size * page.index % 2 ^ 32) page.data page.size := by
  unfold pageSync seekWrite at done
  cases dirty : page.needSync with
  | false =>
    rw [dirty, if_neg Bool.false_ne_true] at done
    cases done
    exact .inl rfl
  | true =>
    rw [dirty, if_pos rfl] at done
    by_cases fits : page.size * page.index % 2 ^ 32 + page.size < 2 ^ 31
    · simp only [if_pos fits] at done
      cases done
      exact .inr rfl
    · simp only [if_neg fits] at done
      cases done

/-- The pages are apart exactly when the size of a page is an `uint32_t`, and the place of the last
one is an `int`. -/
theorem pages_apart_iff (offT : OffT) (rowLen pageRows last : Nat) :
    PagesApart offT rowLen pageRows last ↔
      rowLen * pageRows < 2 ^ 32 ∧ last * (rowLen * pageRows) < 2 ^ 31 := by
  constructor
  · intro pages
    have size := pages.size
    have fits : rowLen * pageRows < 2 ^ 32 := by
      rw [← size]
      exact Nat.mod_lt _ (by decide)
    refine ⟨fits, ?_⟩
    have written := pages.written last (Nat.le_refl last)
    rw [size, seekSet_sync] at written
    by_cases low : rowLen * pageRows * last % 2 ^ 32 < 2 ^ 31
    · rw [if_pos low] at written
      rwa [Option.some.inj written] at low
    · rw [if_neg low] at written
      cases written
  · rintro ⟨fits, low⟩
    have size : pageSizeOf rowLen pageRows = rowLen * pageRows := Nat.mod_eq_of_lt fits
    have place : ∀ index ≤ last, index * (rowLen * pageRows) < 2 ^ 31 := fun index inside =>
      Nat.lt_of_le_of_lt (Nat.mul_le_mul_right _ inside) low
    have whole : ∀ index ≤ last, index * (rowLen * pageRows) % 2 ^ 32 = index * (rowLen * pageRows) :=
      fun index inside => Nat.mod_eq_of_lt (Nat.lt_trans (place index inside) (by decide))
    have read : ∀ index ≤ last, seekSet (offT.ofUint (index * (rowLen * pageRows) % 2 ^ 32)) =
        some (index * (rowLen * pageRows)) := by
      intro index inside
      rw [whole index inside]
      exact seekSet_ofUint offT (place index inside)
    refine ⟨size, ?_, ?_, ?_, ?_, ?_⟩
    · intro index inside
      rw [size, seekSet_sync, Nat.mul_comm, whole index inside, if_pos (place index inside)]
    · intro index inside
      rw [size]
      exact read index inside
    · intro index inside
      rw [size]
      exact read index inside
    · intro index _ other _ different position inPage
      exact page_ranges different inPage
    · intro page synced file file' sized inside done index inside' different position inPage known
      rcases pageSync_file done with rfl | rfl
      · rfl
      · rw [sized, size, Nat.mul_comm, whole page.index inside]
        exact File.pwrite_outside known (page_ranges different.symm inPage)

/-- Rows of 64 bytes, 1024 on a page: the place of page 32768 is negative. -/
theorem large_table_has_no_place : ¬ PagesApart .int32 64 1024 32768 := by
  intro pages
  have low := ((pages_apart_iff _ _ _ _).mp pages).2
  omega

end QNXStuff.QXBase

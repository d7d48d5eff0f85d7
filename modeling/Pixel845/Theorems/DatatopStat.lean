import Pixel845.Lemmas.DatatopStat
import Pixel845.Lemmas.DatatopStore

/-!
# Filling the table of /proc/stat

The table is allocated with the last count of values and filled with what each line has counted. The two agree exactly when the
count never starts over behind a value: `dt_stat_parse` returns 0 for an empty line, so that the values before it are written
behind what was allocated (`stat_filled_iff`).
-/

namespace Pixel845.Datatop

/-- The search is defined, and of the entries allocated exactly all are written. -/
def Filled (r : Option (Option StatSearch)) : Prop :=
  ∃ s, r = some s ∧ ∀ t, s = some t → t.written.length = t.dpCount ∧ (t.dpPerLine.map Int.toNat).sum = t.dpCount

/-- For every content, whatever the line buffers and the read buffer hold before: the entries allocated are exactly those written,
unless the number of a line is no index of the dictionary or an empty line follows a line with a value. -/
theorem stat_filled_iff (content : List UInt8) (rest : Image) (vars : Vars) (junk : Nat → DataPoint) :
    Filled (statSearch content rest vars junk) ↔
      content = [] ∨ Numbered 0 (statLines content rest vars) ∧ NoEmptyBehind (statLines content rest vars) := by
  by_cases hnil : content = []
  · exact ⟨fun _ => .inl hnil, fun _ => ⟨none, by rw [statSearch, if_pos hnil], by simp⟩⟩
  by_cases hnum : Numbered 0 (statLines content rest vars)
  · obtain ⟨s, hsearch, hwritten, hcount⟩ := statSearch_written junk hnil hnum
    rw [hsearch]
    constructor
    · rintro ⟨r, hr, hfilled⟩
      exact .inr ⟨hnum, hcount.mp (hfilled s (Option.some.inj hr).symm).1⟩
    · rintro (h | h)
      · exact absurd h hnil
      · refine ⟨_, rfl, ?_⟩
        intro t ht
        obtain rfl := Option.some.inj ht
        exact ⟨hcount.mpr h.2, hwritten.symm.trans (hcount.mpr h.2)⟩
  · rw [statSearch_none junk hnil hnum]
    constructor
    · rintro ⟨s, hs, -⟩
      cases hs
    · rintro (h | h)
      · exact absurd h hnil
      · exact absurd h.1 hnum

/-- An empty line between two lines with values: one entry is allocated and three are written. -/
theorem stat_written_behind :
    ¬Filled (statSearch [99, 112, 117, 32, 49, 32, 50, 10, 10, 105, 110, 116, 114, 32, 51, 10] Image.zero (.cleared 4096 3)
      fun _ => .blank) := by
  have hker : ((statSearch [99, 112, 117, 32, 49, 32, 50, 10, 10, 105, 110, 116, 114, 32, 51, 10] Image.zero (.cleared 4096 3)
      fun _ => .blank).bind fun s => s.map fun t => (t.dpCount, t.written.length)) = some (1, 3) := by decide +kernel
  rintro ⟨s, hs, hfilled⟩
  rw [hs, Option.bind_some, Option.map_eq_some_iff] at hker
  obtain ⟨t, ht, hcounts⟩ := hker
  have hlen := (hfilled t ht).1
  simp only [Prod.mk.injEq] at hcounts
  omega

end Pixel845.Datatop

import Mathlib.Data.Char
import Mathlib.Data.List.Basic

/-! # Upper and lower case

Case mappings of code points as tables of ranges, as Go's `unicode` package has them: the simple
lower case and the simple case folding of Unicode 15 for all code points but the ASCII ones, which
are mapped without a table. Every code point in lower case is left as it is. -/

/-- Every `step`-th code point from `lo` to `hi`, mapped from `base` on. -/
structure CaseRange where
  lo : ℕ
  hi : ℕ
  step : ℕ
  base : ℕ

namespace CaseRange

open List

def shifted (p : ℕ × ℕ × ℕ) : CaseRange := ⟨p.1, p.2.1, 1, p.2.2⟩

def alternating (p : ℕ × ℕ) : CaseRange := ⟨p.1, p.2, 2, p.1 + 1⟩

variable (r : CaseRange)

def Contains (n : ℕ) : Prop := r.lo ≤ n ∧ n ≤ r.hi ∧ (n - r.lo) % r.step = 0

instance (n : ℕ) : Decidable (r.Contains n) := inferInstanceAs (Decidable (_ ∧ _))

def image (n : ℕ) : ℕ := r.base + (n - r.lo)

def apart (r' : CaseRange) : Bool :=
  (r.base + (r.hi - r.lo)).blt r'.lo || r'.hi.blt r.base ||
    (r.step == 2 || r.lo == r.hi) && r'.step == 2 && r.base % 2 != r'.lo % 2

variable {r}

theorem not_contains_of_apart {r' : CaseRange} (h : r.apart r') {n : ℕ} (hn : r.Contains n) :
    ¬ r'.Contains (r.image n) := by
  rintro ⟨hlo, hhi, hstep⟩
  obtain ⟨hlo', hhi', hstep'⟩ := hn
  rw [image] at hlo hhi hstep
  simp only [apart, Nat.blt_eq, Bool.or_eq_true, Bool.and_eq_true, beq_iff_eq, bne_iff_ne,
    or_assoc, and_assoc] at h
  obtain h | h | ⟨h₂ | hone, h₂', hparity⟩ := h
  · omega
  · omega
  · rw [h₂'] at hstep
    rw [h₂] at hstep'
    omega
  · rw [h₂'] at hstep
    omega

def mapCode (table : List CaseRange) (n : ℕ) : Option ℕ :=
  (table.find? fun r => r.Contains n).map fun r => r.image n

/-! ## Lower case -/

def lowerShifted : List (ℕ × ℕ × ℕ) :=
  [(0xc0, 0xd6, 0xe0), (0xd8, 0xde, 0xf8), (0x130, 0x130, 0x69), (0x178, 0x178, 0xff),
   (0x181, 0x181, 0x253), (0x186, 0x186, 0x254), (0x189, 0x18a, 0x256), (0x18e, 0x18e, 0x1dd),
   (0x18f, 0x18f, 0x259), (0x190, 0x190, 0x25b), (0x193, 0x193, 0x260), (0x194, 0x194, 0x263),
   (0x196, 0x196, 0x269), (0x197, 0x197, 0x268), (0x19c, 0x19c, 0x26f), (0x19d, 0x19d, 0x272),
   (0x19f, 0x19f, 0x275), (0x1a6, 0x1a6, 0x280), (0x1a9, 0x1a9, 0x283), (0x1ae, 0x1ae, 0x288),
   (0x1b1, 0x1b2, 0x28a), (0x1b7, 0x1b7, 0x292), (0x1c4, 0x1c4, 0x1c6), (0x1c7, 0x1c7, 0x1c9),
   (0x1ca, 0x1ca, 0x1cc), (0x1f1, 0x1f1, 0x1f3), (0x1f6, 0x1f6, 0x195), (0x1f7, 0x1f7, 0x1bf),
   (0x220, 0x220, 0x19e), (0x23a, 0x23a, 0x2c65), (0x23d, 0x23d, 0x19a), (0x23e, 0x23e, 0x2c66),
   (0x243, 0x243, 0x180), (0x244, 0x244, 0x289), (0x245, 0x245, 0x28c), (0x37f, 0x37f, 0x3f3),
   (0x386, 0x386, 0x3ac), (0x388, 0x38a, 0x3ad), (0x38c, 0x38c, 0x3cc), (0x38e, 0x38f, 0x3cd),
   (0x391, 0x3a1, 0x3b1), (0x3a3, 0x3ab, 0x3c3), (0x3cf, 0x3cf, 0x3d7), (0x3f4, 0x3f4, 0x3b8),
   (0x3f9, 0x3f9, 0x3f2), (0x3fd, 0x3ff, 0x37b), (0x400, 0x40f, 0x450), (0x410, 0x42f, 0x430),
   (0x4c0, 0x4c0, 0x4cf), (0x531, 0x556, 0x561), (0x10a0, 0x10c5, 0x2d00), (0x10c7, 0x10c7, 0x2d27),
   (0x10cd, 0x10cd, 0x2d2d), (0x13a0, 0x13ef, 0xab70), (0x13f0, 0x13f5, 0x13f8),
   (0x1c90, 0x1cba, 0x10d0), (0x1cbd, 0x1cbf, 0x10fd), (0x1e9e, 0x1e9e, 0xdf),
   (0x1f08, 0x1f0f, 0x1f00), (0x1f18, 0x1f1d, 0x1f10), (0x1f28, 0x1f2f, 0x1f20),
   (0x1f38, 0x1f3f, 0x1f30), (0x1f48, 0x1f4d, 0x1f40), (0x1f59, 0x1f59, 0x1f51),
   (0x1f5b, 0x1f5b, 0x1f53), (0x1f5d, 0x1f5d, 0x1f55), (0x1f5f, 0x1f5f, 0x1f57),
   (0x1f68, 0x1f6f, 0x1f60), (0x1f88, 0x1f8f, 0x1f80), (0x1f98, 0x1f9f, 0x1f90),
   (0x1fa8, 0x1faf, 0x1fa0), (0x1fb8, 0x1fb9, 0x1fb0), (0x1fba, 0x1fbb, 0x1f70),
   (0x1fbc, 0x1fbc, 0x1fb3), (0x1fc8, 0x1fcb, 0x1f72), (0x1fcc, 0x1fcc, 0x1fc3),
   (0x1fd8, 0x1fd9, 0x1fd0), (0x1fda, 0x1fdb, 0x1f76), (0x1fe8, 0x1fe9, 0x1fe0),
   (0x1fea, 0x1feb, 0x1f7a), (0x1fec, 0x1fec, 0x1fe5), (0x1ff8, 0x1ff9, 0x1f78),
   (0x1ffa, 0x1ffb, 0x1f7c), (0x1ffc, 0x1ffc, 0x1ff3), (0x2126, 0x2126, 0x3c9),
   (0x212a, 0x212a, 0x6b), (0x212b, 0x212b, 0xe5), (0x2132, 0x2132, 0x214e),
   (0x2160, 0x216f, 0x2170), (0x24b6, 0x24cf, 0x24d0), (0x2c00, 0x2c2f, 0x2c30),
   (0x2c62, 0x2c62, 0x26b), (0x2c63, 0x2c63, 0x1d7d), (0x2c64, 0x2c64, 0x27d),
   (0x2c6d, 0x2c6d, 0x251), (0x2c6e, 0x2c6e, 0x271), (0x2c6f, 0x2c6f, 0x250),
   (0x2c70, 0x2c70, 0x252), (0x2c7e, 0x2c7f, 0x23f), (0xa77d, 0xa77d, 0x1d79),
   (0xa78d, 0xa78d, 0x265), (0xa7aa, 0xa7aa, 0x266), (0xa7ab, 0xa7ab, 0x25c),
   (0xa7ac, 0xa7ac, 0x261), (0xa7ad, 0xa7ad, 0x26c), (0xa7ae, 0xa7ae, 0x26a),
   (0xa7b0, 0xa7b0, 0x29e), (0xa7b1, 0xa7b1, 0x287), (0xa7b2, 0xa7b2, 0x29d),
   (0xa7b3, 0xa7b3, 0xab53), (0xa7c4, 0xa7c4, 0xa794), (0xa7c5, 0xa7c5, 0x282),
   (0xa7c6, 0xa7c6, 0x1d8e), (0xff21, 0xff3a, 0xff41), (0x10400, 0x10427, 0x10428),
   (0x104b0, 0x104d3, 0x104d8), (0x10570, 0x1057a, 0x10597), (0x1057c, 0x1058a, 0x105a3),
   (0x1058c, 0x10592, 0x105b3), (0x10594, 0x10595, 0x105bb), (0x10c80, 0x10cb2, 0x10cc0),
   (0x118a0, 0x118bf, 0x118c0), (0x16e40, 0x16e5f, 0x16e60), (0x1e900, 0x1e921, 0x1e922)]

def lowerAlternating : List (ℕ × ℕ) :=
  [(0x100, 0x12e), (0x132, 0x136), (0x139, 0x147), (0x14a, 0x176), (0x179, 0x17d), (0x182, 0x184),
   (0x187, 0x187), (0x18b, 0x18b), (0x191, 0x191), (0x198, 0x198), (0x1a0, 0x1a4), (0x1a7, 0x1a7),
   (0x1ac, 0x1ac), (0x1af, 0x1af), (0x1b3, 0x1b5), (0x1b8, 0x1b8), (0x1bc, 0x1bc), (0x1c5, 0x1c5),
   (0x1c8, 0x1c8), (0x1cb, 0x1db), (0x1de, 0x1ee), (0x1f2, 0x1f4), (0x1f8, 0x21e), (0x222, 0x232),
   (0x23b, 0x23b), (0x241, 0x241), (0x246, 0x24e), (0x370, 0x372), (0x376, 0x376), (0x3d8, 0x3ee),
   (0x3f7, 0x3f7), (0x3fa, 0x3fa), (0x460, 0x480), (0x48a, 0x4be), (0x4c1, 0x4cd), (0x4d0, 0x52e),
   (0x1e00, 0x1e94), (0x1ea0, 0x1efe), (0x2183, 0x2183), (0x2c60, 0x2c60), (0x2c67, 0x2c6b),
   (0x2c72, 0x2c72), (0x2c75, 0x2c75), (0x2c80, 0x2ce2), (0x2ceb, 0x2ced), (0x2cf2, 0x2cf2),
   (0xa640, 0xa66c), (0xa680, 0xa69a), (0xa722, 0xa72e), (0xa732, 0xa76e), (0xa779, 0xa77b),
   (0xa77e, 0xa786), (0xa78b, 0xa78b), (0xa790, 0xa792), (0xa796, 0xa7a8), (0xa7b4, 0xa7c2),
   (0xa7c7, 0xa7c9), (0xa7d0, 0xa7d0), (0xa7d6, 0xa7d8), (0xa7f5, 0xa7f5)]

def lowerRanges : List CaseRange := lowerShifted.map shifted ++ lowerAlternating.map alternating

theorem apart_lowerRanges : ∀ r ∈ lowerRanges, 128 ≤ r.lo ∧ 90 < r.base ∧
    (r.base + (r.hi - r.lo) < 0xd800 ∨ 0xdfff < r.base ∧ r.base + (r.hi - r.lo) < 0x110000) ∧
    lowerRanges.all r.apart := by
  decide +kernel

theorem mapCode_lowerRanges {n m : ℕ} (h : mapCode lowerRanges n = some m) :
    128 ≤ n ∧ 90 < m ∧ m.isValidChar ∧ mapCode lowerRanges m = none := by
  obtain ⟨r, hr, rfl⟩ := Option.map_eq_some_iff.mp h
  have hmem := mem_of_find?_eq_some hr
  have hn : r.Contains n := by simpa using find?_some hr
  obtain ⟨hlo, hbase, hvalid, hapart⟩ := apart_lowerRanges r hmem
  have hle : n - r.lo ≤ r.hi - r.lo := Nat.sub_le_sub_right hn.2.1 _
  refine ⟨Nat.le_trans hlo hn.1, Nat.lt_add_right _ hbase, ?_, ?_⟩
  · rw [Nat.isValidChar, image]
    omega
  · rw [mapCode, Option.map_eq_none_iff, find?_eq_none]
    intro r' hr'
    simpa using not_contains_of_apart (all_eq_true.mp hapart r' hr') hn

/-! ## Folding -/

def foldRanges : List CaseRange := List.map shifted
  [(0xb5, 0xb5, 0x3bc), (0x130, 0x130, 0x130), (0x17f, 0x17f, 0x73), (0x345, 0x345, 0x3b9),
   (0x3c2, 0x3c2, 0x3c3), (0x3d0, 0x3d0, 0x3b2), (0x3d1, 0x3d1, 0x3b8), (0x3d5, 0x3d5, 0x3c6),
   (0x3d6, 0x3d6, 0x3c0), (0x3f0, 0x3f0, 0x3ba), (0x3f1, 0x3f1, 0x3c1), (0x3f5, 0x3f5, 0x3b5),
   (0x13a0, 0x13f5, 0x13a0), (0x13f8, 0x13fd, 0x13f0), (0x1c80, 0x1c80, 0x432),
   (0x1c81, 0x1c81, 0x434), (0x1c82, 0x1c82, 0x43e), (0x1c83, 0x1c84, 0x441),
   (0x1c85, 0x1c85, 0x442), (0x1c86, 0x1c86, 0x44a), (0x1c87, 0x1c87, 0x463),
   (0x1c88, 0x1c88, 0xa64b), (0x1e9b, 0x1e9b, 0x1e61), (0x1fbe, 0x1fbe, 0x3b9),
   (0xab70, 0xabbf, 0x13a0)]

end CaseRange

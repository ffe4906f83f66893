import Mathlib.Data.Set.Card
import Mathlib.Order.Minimal
import StripePruning.Bitmap.Stats
import StripePruning.Proofs.Bitmap.Walk
import StripePruning.Proofs.Number.Order

/-!
# Runs of set bits

The clustering of a bitmap divides the number of its set bits by the number of their runs.
This module says what is counted as a run, whatever words the run lies in.

* The count.  `Passed` is what the count knows of the positions that it has passed.
  `Passed.skip` and `Passed.take` are one position, `passed_ascending` is all of them, and
  `WellFormed.runs_eq_count` says that the positions are counted at which a run starts.
* The blocks.  `IsBlock` are the stretches of set positions.  `setOf_maximal_isBlock` finds the
  maximal ones: each of them goes from the start of a run to the next clear position.
* The quotient.  `WellFormed.runs_eq_zero_iff` and `WellFormed.runs_le_count` bound the number of
  runs, so `WellFormed.one_le_clustering` bounds the clustering.  `Reachable.runs_eq_blocks` puts
  this together for every bitmap that calls can reach.
-/

namespace StripePruning

namespace Bitmap

variable {b : Bitmap}

/-! ## The count -/

/-- A run of set bits starts at a set position that does not follow another one. -/
def StartsRun (b : Bitmap) (p : Nat) : Prop :=
  b.get p = true ∧ (p = 0 ∨ b.get (p - 1) = false)

instance decidableStartsRun (b : Bitmap) : DecidablePred b.StartsRun :=
  fun p => inferInstanceAs (Decidable (b.get p = true ∧ (p = 0 ∨ b.get (p - 1) = false)))

/-- The state of the count behind the first positions: the runs that start there, and the last
set position. -/
structure Passed (b : Bitmap) (n : Nat) (state : Nat × Option Nat) : Prop where
  runs_eq : state.1 = Nat.count b.StartsRun n
  last_lt {q : Nat} : state.2 = some q → q < n
  last_set {q : Nat} : state.2 = some q → b.get q = true
  clear {p : Nat} : p < n → (∀ q, state.2 = some q → q < p) → b.get p = false

variable {n : Nat} {state : Nat × Option Nat}

/-- A set position starts a run unless it follows the last set position. -/
theorem Passed.startsRun_iff (h : b.Passed n state) (hset : b.get n = true) :
    b.StartsRun n ↔ ∀ q, state.2 = some q → q + 1 ≠ n := by
  constructor
  · rintro ⟨-, hfirst | hprevious⟩ q hq heq
    · omega
    · obtain rfl : q = n - 1 := by omega
      rw [h.last_set hq] at hprevious
      exact Bool.noConfusion hprevious
  · intro hlast
    refine ⟨hset, ?_⟩
    rcases Nat.eq_zero_or_pos n with hzero | hpos
    · exact Or.inl hzero
    · refine Or.inr (h.clear (by omega) fun q hq => ?_)
      have hlt := h.last_lt hq
      have hne := hlast q hq
      omega

theorem snd_countRun (state : Nat × Option Nat) (n : Nat) : (countRun state n).2 = some n := by
  obtain ⟨runs, _ | previous⟩ := state <;> rfl

theorem Passed.fst_countRun (h : b.Passed n state) (hset : b.get n = true) :
    (countRun state n).1 = state.1 + if b.StartsRun n then 1 else 0 := by
  obtain ⟨runs, _ | previous⟩ := state
  · have hstarts : b.StartsRun n := (h.startsRun_iff hset).2 nofun
    rw [countRun, if_pos hstarts]
  · have hstarts : b.StartsRun n ↔ previous + 1 ≠ n := by
      rw [h.startsRun_iff hset]
      exact ⟨fun hlast => hlast previous rfl, fun hne q hq => Option.some.inj hq ▸ hne⟩
    rw [countRun]
    by_cases heq : previous + 1 = n
    · rw [if_pos heq, if_neg (fun hs => hstarts.1 hs heq), Nat.add_zero]
    · rw [if_neg heq, if_pos (hstarts.2 heq)]

/-- A clear position changes nothing. -/
theorem Passed.skip (h : b.Passed n state) (hclear : b.get n = false) :
    b.Passed (n + 1) state where
  runs_eq := by
    have hstarts : ¬ b.StartsRun n := fun hs => Bool.noConfusion (hclear.symm.trans hs.1)
    rw [Nat.count_succ, if_neg hstarts, Nat.add_zero, h.runs_eq]
  last_lt hq := Nat.lt_succ_of_lt (h.last_lt hq)
  last_set := h.last_set
  clear {p} hp hbehind := by
    rcases Nat.lt_succ_iff_lt_or_eq.1 hp with hlt | rfl
    · exact h.clear hlt hbehind
    · exact hclear

/-- A set position is counted if a run starts there, and it is the last one then. -/
theorem Passed.take (h : b.Passed n state) (hset : b.get n = true) :
    b.Passed (n + 1) (countRun state n) where
  runs_eq := by rw [h.fst_countRun hset, h.runs_eq, Nat.count_succ]
  last_lt {q} hq := by
    rw [snd_countRun] at hq
    obtain rfl := Option.some.inj hq
    exact Nat.lt_succ_self n
  last_set {q} hq := by
    rw [snd_countRun] at hq
    obtain rfl := Option.some.inj hq
    exact hset
  clear {p} hp hbehind := by
    have hlt := hbehind n (snd_countRun state n)
    omega

/-- The count over the set positions in ascending order. -/
theorem passed_ascending (b : Bitmap) (n : Nat) :
    b.Passed n (((List.range n).filter b.get).foldl countRun (0, none)) := by
  -- On all positions, not only the set ones: a run starts behind a clear position.
  induction n with
  | zero =>
    exact ⟨rfl, nofun, nofun, fun hp => absurd hp (Nat.not_lt_zero _)⟩
  | succ n ih =>
    rw [List.range_succ, List.filter_append, List.foldl_append]
    cases hn : b.get n with
    | false =>
      rw [List.filter_cons_of_neg (by simp [hn])]
      exact ih.skip hn
    | true =>
      rw [List.filter_cons_of_pos hn]
      exact ih.take hn

theorem WellFormed.runs_eq_count (h : b.WellFormed) : b.runs = Nat.count b.StartsRun b.len := by
  rw [runs, h.ones_eq]
  exact (b.passed_ascending b.len).runs_eq

/-! ## The blocks -/

/-- A block of consecutive set positions. -/
def IsBlock (b : Bitmap) (block : Finset Nat) : Prop :=
  ∃ first last, first ≤ last ∧ block = Finset.Icc first last ∧ ∀ p ∈ block, b.get p = true

theorem exists_clear (b : Bitmap) (first : Nat) : ∃ p, first ≤ p ∧ b.get p = false := by
  refine ⟨max first b.len, Nat.le_max_left _ _, ?_⟩
  rw [← Bool.not_eq_true]
  exact fun hset => Nat.not_lt_of_le (Nat.le_max_right first b.len) (lt_len_of_get hset)

/-- The set positions from `first` up to the next clear one. -/
def blockFrom (b : Bitmap) (first : Nat) : Finset Nat :=
  Finset.Ico first (Nat.find (b.exists_clear first))

variable {first p : Nat}

theorem mem_blockFrom :
    p ∈ b.blockFrom first ↔ first ≤ p ∧ ∀ q, first ≤ q → q ≤ p → b.get q = true := by
  rw [blockFrom, Finset.mem_Ico, Nat.lt_find_iff]
  refine and_congr_right fun _ => forall_congr' fun q => ?_
  rw [not_and, Bool.not_eq_false]
  exact forall_comm

theorem StartsRun.mem_blockFrom (h : b.StartsRun first) : first ∈ b.blockFrom first := by
  refine Bitmap.mem_blockFrom.2 ⟨Nat.le_refl first, fun q hq hq' => ?_⟩
  rw [Nat.le_antisymm hq' hq]
  exact h.1

/-- Where a run starts there is a maximal block. -/
theorem StartsRun.maximal (h : b.StartsRun first) : Maximal b.IsBlock (b.blockFrom first) := by
  have hfirst := h.mem_blockFrom
  constructor
  · have hstop := (Finset.mem_Ico.1 hfirst).2
    refine ⟨first, Nat.find (b.exists_clear first) - 1, by omega, ?_, fun p hp => ?_⟩
    · ext p
      rw [blockFrom, Finset.mem_Ico, Finset.mem_Icc]
      omega
    · obtain ⟨hle, hset⟩ := Bitmap.mem_blockFrom.1 hp
      exact hset p hle (Nat.le_refl p)
  · rintro other ⟨f, l, -, rfl, hset⟩ hsub p hp
    have hmem := Finset.mem_Icc.1 (hsub hfirst)
    rw [Finset.mem_Icc] at hp
    have hle : first ≤ p := by
      apply Nat.le_of_not_lt
      intro hlt
      -- The position before the start would be set.
      rcases h.2 with hzero | hprevious
      · omega
      · rw [hset (first - 1) (Finset.mem_Icc.2 (by omega))] at hprevious
        exact Bool.noConfusion hprevious
    refine Bitmap.mem_blockFrom.2 ⟨hle, fun q hq hq' => hset q (Finset.mem_Icc.2 (by omega))⟩

/-- A maximal block starts where a run starts. -/
theorem exists_startsRun_of_maximal {block : Finset Nat} (h : Maximal b.IsBlock block) :
    ∃ first, b.StartsRun first ∧ b.blockFrom first = block := by
  obtain ⟨first, last, hle, rfl, hset⟩ := h.prop
  have hstarts : b.StartsRun first := by
    refine ⟨hset first (Finset.mem_Icc.2 (by omega)), ?_⟩
    cases hprevious : b.get (first - 1) with
    | false => exact Or.inr rfl
    | true =>
      -- Otherwise the block could be extended by the position before it.
      have hlonger : b.IsBlock (Finset.Icc (first - 1) last) := by
        refine ⟨first - 1, last, by omega, rfl, fun p hp => ?_⟩
        rw [Finset.mem_Icc] at hp
        rcases Nat.eq_or_lt_of_le hp.1 with rfl | hlt
        · exact hprevious
        · exact hset p (Finset.mem_Icc.2 (by omega))
      have hmem := h.le_of_ge hlonger (Finset.Icc_subset_Icc (by omega) (Nat.le_refl last))
        (Finset.mem_Icc.2 ⟨Nat.le_refl (first - 1), by omega⟩)
      rw [Finset.mem_Icc] at hmem
      exact Or.inl (by omega)
  refine ⟨first, hstarts, (h.eq_of_le hstarts.maximal.prop fun p hp => ?_).symm⟩
  rw [Finset.mem_Icc] at hp
  exact mem_blockFrom.2 ⟨hp.1, fun q hq hq' => hset q (Finset.mem_Icc.2 (by omega))⟩

theorem setOf_maximal_isBlock (b : Bitmap) :
    {block | Maximal b.IsBlock block} = b.blockFrom '' {first | b.StartsRun first} := by
  ext block
  constructor
  · exact fun h => exists_startsRun_of_maximal h
  · rintro ⟨first, hstarts, rfl⟩
    exact StartsRun.maximal hstarts

theorem injOn_blockFrom (b : Bitmap) : Set.InjOn b.blockFrom {first | b.StartsRun first} := by
  intro first hfirst other hother heq
  have hmem := heq ▸ StartsRun.mem_blockFrom hfirst
  have hmem' := heq ▸ StartsRun.mem_blockFrom hother
  exact Nat.le_antisymm (mem_blockFrom.1 hmem').1 (mem_blockFrom.1 hmem).1

/-- There are as many maximal blocks as starts of runs. -/
theorem encard_maximal_isBlock (b : Bitmap) :
    {block | Maximal b.IsBlock block}.encard = ((Finset.range b.len).filter b.StartsRun).card := by
  have hstarts : {first | b.StartsRun first}
      = ((Finset.range b.len).filter b.StartsRun : Set Nat) := by
    ext first
    rw [Finset.mem_coe, Finset.mem_filter, Finset.mem_range]
    exact ⟨fun hfirst => ⟨lt_len_of_get hfirst.1, hfirst⟩, And.right⟩
  rw [setOf_maximal_isBlock, b.injOn_blockFrom.encard_image, hstarts,
    Set.encard_coe_eq_coe_finsetCard]

/-! ## The quotient -/

/-- With a set position there is a start of a run. -/
theorem exists_startsRun (hset : b.get p = true) : ∃ first, b.StartsRun first := by
  induction p with
  | zero => exact ⟨0, hset, Or.inl rfl⟩
  | succ p ih =>
    cases hprevious : b.get p with
    | false => exact ⟨p + 1, hset, Or.inr hprevious⟩
    | true => exact ih hprevious

theorem WellFormed.runs_eq_zero_iff (h : b.WellFormed) :
    b.runs = 0 ↔ ∀ p, b.get p = false := by
  rw [h.runs_eq_count, Nat.count_iff_forall_not]
  constructor
  · intro hnone p
    rw [← Bool.not_eq_true]
    intro hset
    obtain ⟨first, hfirst⟩ := exists_startsRun hset
    exact hnone first (lt_len_of_get hfirst.1) hfirst
  · intro hclear p _ hstarts
    exact Bool.noConfusion ((hclear p).symm.trans hstarts.1)

theorem WellFormed.runs_ne_zero (h : b.WellFormed) (hset : ∃ p, b.get p = true) :
    b.runs ≠ 0 := by
  obtain ⟨p, hset⟩ := hset
  intro hruns
  exact Bool.noConfusion ((h.runs_eq_zero_iff.1 hruns p).symm.trans hset)

/-- Every run has a set bit of its own. -/
theorem WellFormed.runs_le_count (h : b.WellFormed) : b.runs ≤ b.count := by
  rw [h.runs_eq_count, h.count_eq]
  exact Nat.count_mono_left fun p _ hstarts => hstarts.1

theorem clustering_of_runs_eq_zero (hruns : b.runs = 0) : (b.clustering : Float) = 0.0 := by
  have hzero : (0 : Float) = 0.0 := by decide +kernel
  rw [clustering, if_pos hruns, hzero]

theorem clustering_of_runs_ne_zero (hruns : b.runs ≠ 0) :
    (b.clustering : Float) = b.count.toFloat / b.runs.toFloat := by
  rw [clustering, if_neg hruns]
  rfl

/-- No run is shorter than one bit, so rounding does not bring the clustering below one. -/
theorem WellFormed.one_le_clustering (h : b.WellFormed) (hruns : b.runs ≠ 0)
    (hcount : b.count < 2 ^ 64) : 1.0 ≤ (b.clustering : Float) := by
  rw [clustering_of_runs_ne_zero hruns]
  exact Double.one_le_toFloat_div_toFloat h.runs_le_count (Nat.pos_of_ne_zero hruns) hcount

theorem WellFormed.clustering_eq_zero_iff (h : b.WellFormed) (hcount : b.count < 2 ^ 64) :
    (b.clustering : Float) = 0.0 ↔ ∀ p, b.get p = false := by
  rw [← h.runs_eq_zero_iff]
  refine ⟨fun hzero => ?_, clustering_of_runs_eq_zero⟩
  apply Classical.byContradiction
  intro hruns
  have hone := h.one_le_clustering hruns hcount
  rw [hzero] at hone
  exact Double.not_le_zero hone Double.zero_le_zero

/-- The runs that are counted are the maximal blocks of consecutive set positions, or the positions
at which such a block starts.  There are none only without set bits, and then the clustering is
zero.  Otherwise there are no more runs than set bits, and the clustering is the quotient of the
two numbers.  For a length that fits a word the divisor and the quotient are at least one, also
after rounding, so the clustering is zero only without set bits. -/
theorem Reachable.runs_eq_blocks (h : b.Reachable) :
    {block | Maximal b.IsBlock block}.encard = b.runs ∧
      b.runs = ((Finset.range b.len).filter fun p =>
        b.get p = true ∧ (p = 0 ∨ b.get (p - 1) = false)).card ∧
      (b.runs = 0 ↔ ∀ p, b.get p = false) ∧
      ((∀ p, b.get p = false) → (b.clustering : Float) = 0.0) ∧
      ((∃ p, b.get p = true) → 1 ≤ b.runs ∧ b.runs ≤ b.count ∧
        (b.clustering : Float) = b.count.toFloat / b.runs.toFloat) ∧
      (b.len < 2 ^ 64 →
        ((∃ p, b.get p = true) → 1.0 ≤ b.runs.toFloat ∧ 1.0 ≤ (b.clustering : Float)) ∧
        ((b.clustering : Float) = 0.0 ↔ ∀ p, b.get p = false)) := by
  have hwf := h.wellFormed
  have hcard : b.runs = ((Finset.range b.len).filter b.StartsRun).card := by
    rw [hwf.runs_eq_count, Nat.count_eq_card_filter_range]
  refine ⟨?_, hcard, hwf.runs_eq_zero_iff, ?_, ?_, ?_⟩
  · rw [hcard]
    exact b.encard_maximal_isBlock
  · intro hclear
    exact clustering_of_runs_eq_zero (hwf.runs_eq_zero_iff.2 hclear)
  · intro hset
    have hruns := hwf.runs_ne_zero hset
    exact ⟨Nat.pos_of_ne_zero hruns, hwf.runs_le_count, clustering_of_runs_ne_zero hruns⟩
  · intro hlen
    have hcount : b.count < 2 ^ 64 := Nat.lt_of_le_of_lt hwf.count_le_len hlen
    refine ⟨fun hset => ?_, hwf.clustering_eq_zero_iff hcount⟩
    have hruns := hwf.runs_ne_zero hset
    have hlt : b.runs < 2 ^ 64 := Nat.lt_of_le_of_lt hwf.runs_le_count hcount
    exact ⟨Double.one_le_toFloat (Nat.pos_of_ne_zero hruns) hlt,
      hwf.one_le_clustering hruns hcount⟩

/-- Two runs in four words: one crosses the end of the first word, and the other one fills the
third word and goes on to the end. -/
def acrossWords : Bitmap :=
  ofFn 200 fun p => (62 ≤ p && p ≤ 65) || (120 ≤ p && p ≤ 199)

theorem Reachable.runs_eq_blocks_across_words :
    (acrossWords.Reachable ∧ acrossWords.len < 2 ^ 64 ∧
      {block | Maximal acrossWords.IsBlock block}.encard = 2 ∧
      (acrossWords.clustering : Float) = 42.0 ∧ 1.0 ≤ (acrossWords.clustering : Float)) ∧
    (zeros 70).Reachable ∧ (zeros 70).runs = 0 ∧ ((zeros 70).clustering : Float) = 0.0 := by
  have hreachable : acrossWords.Reachable := reachable_iff.2 (wellFormed_ofFn _ _)
  obtain ⟨hblocks, hstarts, -, -, hquotient, hword⟩ := hreachable.runs_eq_blocks
  have hruns : acrossWords.runs = 2 := hstarts.trans (by decide +kernel)
  have hset : ∃ p, acrossWords.get p = true := ⟨62, by decide +kernel⟩
  have hlen : acrossWords.len < 2 ^ 64 := by decide
  have hcount : acrossWords.count = 84 := by decide +kernel
  have hzeros : (zeros 70).Reachable := reachable_iff.2 (wellFormed_zeros 70)
  obtain ⟨-, -, hnone, hclear, -, -⟩ := hzeros.runs_eq_blocks
  refine ⟨⟨hreachable, hlen, ?_, ?_, ((hword hlen).1 hset).2⟩, hzeros,
    hnone.2 (get_zeros 70), hclear (get_zeros 70)⟩
  · rw [hblocks, hruns]
    rfl
  · rw [(hquotient hset).2.2, hruns, hcount]
    decide +kernel

end Bitmap

end StripePruning

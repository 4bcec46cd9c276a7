import Mathlib

/-!
# Giving to those that have least

Every member of a finite set has a number of things. In a row one member is left out, and one more
thing is given to some of the others: to those that have least. Rows follow one another, each with
the member that it leaves out. When does everybody have a fair share at the end?

As long as the numbers differ by one at most, they still do after a row, unless the member that is
left out has least and all others that have least are not enough for the row: then it is behind by
itself (`row_of_equitable`). The next row that does not leave it out gives to it first, and the
numbers differ by one at most again (`Behind.row_other`). So only the last rows matter.

* `Rows.le_of_spread` — the shares, when what is left over at the end is more than the last rows
  can have cost the member that is behind;
* `Rows.le_of_few` — the shares, when they are one thing at most;
* `Rows.eq_of_all` — rows that give to everybody else.
-/

namespace MyBase.Lib

variable {α : Type} [DecidableEq α] {s taken : Finset α} {m v : α} {h h' h₀ : α → Nat} {l k : Nat}

/-- A row: the members of `taken`, which have least among those other than `m`, get one more. -/
structure Row (s : Finset α) (m : α) (taken : Finset α) (h h' : α → Nat) : Prop where
  member : m ∈ s
  subset : taken ⊆ s.erase m
  least : ∀ y ∈ taken, ∀ x ∈ s, x ≠ m → x ∉ taken → h y ≤ h x
  incr : ∀ x ∈ s, h' x = h x + if x ∈ taken then 1 else 0

/-- Only `v` is behind: it has `l`, and the others one or two more, no more than `k` of them two. -/
structure Behind (s : Finset α) (v : α) (l k : Nat) (h : α → Nat) : Prop where
  member : v ∈ s
  eq : h v = l
  others : ∀ x ∈ s, x ≠ v → h x = l + 1 ∨ h x = l + 2
  few : (s.filter fun x => h x = l + 2).card ≤ k

-- ---------------------------------------------------------------------------
-- One row
-- ---------------------------------------------------------------------------

section Row

variable (hRow : Row s m taken h h')
include hRow

theorem Row.not_taken : m ∉ taken := fun hMem =>
  (Finset.mem_erase.mp (hRow.subset hMem)).1 rfl

theorem Row.eq_of_taken {x : α} (hx : x ∈ taken) : h' x = h x + 1 := by
  rw [hRow.incr x (Finset.mem_of_mem_erase (hRow.subset hx)), if_pos hx]

theorem Row.eq_of_not_taken {x : α} (hx : x ∈ s) (hNot : x ∉ taken) : h' x = h x := by
  rw [hRow.incr x hx, if_neg hNot, add_zero]

theorem Row.sum : ∑ x ∈ s, h' x = ∑ x ∈ s, h x + taken.card := by
  have hTaken : s.filter (· ∈ taken) = taken := by
    rw [Finset.filter_mem_eq_inter, Finset.inter_eq_right]
    exact hRow.subset.trans (Finset.erase_subset m s)
  rw [Finset.sum_congr rfl hRow.incr, Finset.sum_add_distrib, ← Finset.card_filter, hTaken]

/-- Members that have most get nothing as long as enough have less. -/
theorem Row.taken_lt {most : Nat} (hMost : ∀ x ∈ s, h x ≤ most)
    (hFew : (s.filter fun x => h x = most).card + taken.card < s.card) {y : α} (hy : y ∈ taken) :
    h y < most := by
  by_contra hNot
  have hyS := Finset.mem_of_mem_erase (hRow.subset hy)
  have hyMost := hMost y hyS
  -- then everybody who has been passed over has most, too
  have hSub : insert y (s.erase m \ taken) ⊆ s.filter fun x => h x = most := by
    intro x hx
    rcases Finset.mem_insert.mp hx with rfl | hx
    · exact Finset.mem_filter.mpr ⟨hyS, by omega⟩
    · obtain ⟨hx, hxT⟩ := Finset.mem_sdiff.mp hx
      obtain ⟨hxm, hxS⟩ := Finset.mem_erase.mp hx
      have hLe := hRow.least y hy x hxS hxm hxT
      have hxMost := hMost x hxS
      exact Finset.mem_filter.mpr ⟨hxS, by omega⟩
  have hCard := Finset.card_le_card hSub
  rw [Finset.card_insert_of_notMem fun hMem => (Finset.mem_sdiff.mp hMem).2 hy,
    Finset.card_sdiff_of_subset hRow.subset, Finset.card_erase_of_mem hRow.member] at hCard
  omega

end Row

/-- **A row when the numbers differ by one at most**: the member that is left out may fall
behind. -/
theorem row_of_equitable (hEven : (s : Set α).EquitableOn h) (hRow : Row s m taken h h') :
    (s : Set α).EquitableOn h' ∨ ∃ l, Behind s m l taken.card h' := by
  obtain ⟨l, hl⟩ := Set.equitableOn_iff_exists_eq_eq_add_one.mp hEven
  by_cases hHigh : ∃ w ∈ taken, h w = l + 1
  · obtain ⟨w, hw, hwEq⟩ := hHigh
    have hOthers : ∀ x ∈ s, x ≠ m → h' x = l + 1 ∨ h' x = l + 2 := by
      intro x hx hxm
      have hxl := hl x hx
      by_cases hxT : x ∈ taken
      · rw [hRow.eq_of_taken hxT]
        omega
      · have hLe := hRow.least w hw x hx hxm hxT
        rw [hRow.eq_of_not_taken hx hxT]
        omega
    have hm := hRow.eq_of_not_taken hRow.member hRow.not_taken
    rcases hl m hRow.member with hLow | hUp
    · refine Or.inr ⟨l, hRow.member, hm.trans hLow, hOthers, Finset.card_le_card ?_⟩
      intro x hx
      obtain ⟨hxS, hxEq⟩ := Finset.mem_filter.mp hx
      by_contra hNot
      have hxl := hl x hxS
      rw [hRow.eq_of_not_taken hxS hNot] at hxEq
      omega
    · refine Or.inl (Set.equitableOn_iff_exists_eq_eq_add_one.mpr ⟨l + 1, fun x hx => ?_⟩)
      by_cases hxm : x = m
      · exact Or.inl (by rw [hxm, hm, hUp])
      · exact hOthers x hx hxm
  · refine Or.inl (Set.equitableOn_iff_exists_eq_eq_add_one.mpr ⟨l, fun x hx => ?_⟩)
    have hxl := hl x hx
    by_cases hxT : x ∈ taken
    · have hLow : h x ≠ l + 1 := fun hEq => hHigh ⟨x, hxT, hEq⟩
      rw [hRow.eq_of_taken hxT]
      omega
    · rw [hRow.eq_of_not_taken hx hxT]
      exact hxl

section Behind

variable (hBehind : Behind s v l k h)
include hBehind

theorem Behind.le : ∀ x ∈ s, h x ≤ l + 2 := by
  intro x hx
  by_cases hxv : x = v
  · rw [hxv, hBehind.eq]
    omega
  · have hxl := hBehind.others x hx hxv
    omega

/-- The member that is behind is left out once more. -/
theorem Behind.row_again (hRow : Row s v taken h h') (hRoom : k + taken.card < s.card) :
    Behind s v l (k + taken.card) h' := by
  have hLow : ∀ y ∈ taken, h y < l + 2 := fun y =>
    hRow.taken_lt hBehind.le (Nat.lt_of_le_of_lt (Nat.add_le_add_right hBehind.few _) hRoom)
  refine ⟨hBehind.member, ?_, ?_, ?_⟩
  · rw [hRow.eq_of_not_taken hRow.member hRow.not_taken, hBehind.eq]
  · intro x hx hxv
    have hxl := hBehind.others x hx hxv
    by_cases hxT : x ∈ taken
    · have hxLow := hLow x hxT
      rw [hRow.eq_of_taken hxT]
      omega
    · rwa [hRow.eq_of_not_taken hx hxT]
  · refine le_trans (Finset.card_le_card (t := s.filter (fun x => h x = l + 2) ∪ taken) ?_)
      ((Finset.card_union_le _ _).trans (Nat.add_le_add_right hBehind.few _))
    intro x hx
    obtain ⟨hxS, hxEq⟩ := Finset.mem_filter.mp hx
    by_cases hxT : x ∈ taken
    · exact Finset.mem_union_right _ hxT
    · rw [hRow.eq_of_not_taken hxS hxT] at hxEq
      exact Finset.mem_union_left _ (Finset.mem_filter.mpr ⟨hxS, hxEq⟩)

/-- **Somebody else is left out**: the member that is behind comes first. -/
theorem Behind.row_other (hRow : Row s m taken h h') (hm : v ≠ m) (hSome : taken.Nonempty)
    (hRoom : taken.card = 1 ∨ k + taken.card < s.card) : (s : Set α).EquitableOn h' := by
  have hTaken : v ∈ taken := by
    by_contra hNot
    obtain ⟨y, hy⟩ := hSome
    have hLe := hRow.least y hy v hBehind.member hm hNot
    have hyl := hBehind.others y (Finset.mem_of_mem_erase (hRow.subset hy))
      fun hEq => hNot (hEq ▸ hy)
    rw [hBehind.eq] at hLe
    omega
  have hLow : ∀ y ∈ taken, y ≠ v → h y < l + 2 := by
    intro y hy hyv
    rcases hRoom with hOne | hRoom
    · exact absurd (Finset.card_le_one.mp hOne.le y hy v hTaken) hyv
    · exact hRow.taken_lt hBehind.le
        (Nat.lt_of_le_of_lt (Nat.add_le_add_right hBehind.few _) hRoom) hy
  refine Set.equitableOn_iff_exists_eq_eq_add_one.mpr ⟨l + 1, fun x hx => ?_⟩
  by_cases hxv : x = v
  · rw [hxv, hRow.eq_of_taken hTaken, hBehind.eq]
    exact Or.inl rfl
  · have hxl := hBehind.others x hx hxv
    by_cases hxT : x ∈ taken
    · have hxLow := hLow x hxT hxv
      rw [hRow.eq_of_taken hxT]
      omega
    · rwa [hRow.eq_of_not_taken hx hxT]

theorem Behind.sum :
    ∑ x ∈ s, h x + 1 = s.card * (l + 1) + (s.filter fun x => h x = l + 2).card := by
  have hEach : ∀ x ∈ s, h x + (if x = v then 1 else 0) =
      (l + 1) + if h x = l + 2 then 1 else 0 := by
    intro x hx
    by_cases hxv : x = v
    · rw [if_pos hxv, hxv, hBehind.eq, if_neg (by omega)]
    · rw [if_neg hxv]
      rcases hBehind.others x hx hxv with hEq | hEq
      · rw [hEq, if_neg (by omega)]
      · rw [hEq, if_pos rfl]
  have hSum := Finset.sum_congr rfl hEach
  rwa [Finset.sum_add_distrib, Finset.sum_add_distrib, Finset.sum_ite_eq', if_pos hBehind.member,
    Finset.sum_const, smul_eq_mul, ← Finset.card_filter] at hSum

/-- A member that is behind has its share all the same, when more is left over than others have
too much. -/
theorem Behind.share_le (hRest : k ≤ (∑ x ∈ s, h x) % s.card) :
    ∀ x ∈ s, (∑ x ∈ s, h x) / s.card ≤ h x := by
  have hSum := hBehind.sum
  have hFew := hBehind.few
  have hPos : 0 < s.card := Finset.card_pos.mpr ⟨v, hBehind.member⟩
  generalize (s.filter fun x => h x = l + 2).card = high at hSum hFew
  generalize ∑ x ∈ s, h x = total at hSum hRest
  have hShare : total / s.card ≤ l := by
    by_contra hMore
    have hDiv := Nat.div_add_mod total s.card
    have hMul : s.card * (l + 1) ≤ s.card * (total / s.card) := Nat.mul_le_mul_left _ (by omega)
    omega
  intro x hx
  by_cases hxv : x = v
  · rwa [hxv, hBehind.eq]
  · have hxl := hBehind.others x hx hxv
    omega

end Behind

-- ---------------------------------------------------------------------------
-- Rows
-- ---------------------------------------------------------------------------

/-- Rows that give `k` things each and leave out `master 0`, `master 1` and so on: `Rows … n h`
when `n` rows have led from `h₀` to `h`. -/
inductive Rows (s : Finset α) (master : Nat → α) (k : Nat) (h₀ : α → Nat) :
    Nat → (α → Nat) → Prop
  | start : Rows s master k h₀ 0 h₀
  | row {n : Nat} {h h' : α → Nat} {taken : Finset α} (before : Rows s master k h₀ n h)
      (hRow : Row s (master n) taken h h') (hCard : taken.card = k) : Rows s master k h₀ (n + 1) h'

/-- The numbers after `n` rows differ by one at most, or the member that the last row has left out
is behind, or the one that the last two rows have. -/
inductive NearEven (s : Finset α) (master : Nat → α) (k : Nat) : Nat → (α → Nat) → Prop
  | even {n : Nat} {h : α → Nat} (hEven : (s : Set α).EquitableOn h) : NearEven s master k n h
  | once {n l : Nat} {h : α → Nat} (hBehind : Behind s (master n) l k h) :
      NearEven s master k (n + 1) h
  | twice {n l : Nat} {h : α → Nat} (hBehind : Behind s (master n) l (k + k) h)
      (hAgain : master n = master (n + 1)) : NearEven s master k (n + 2) h

section Rows

variable {master : Nat → α} {n : Nat}

variable (hRows : Rows s master k h₀ n h)
include hRows

theorem Rows.sum : ∑ x ∈ s, h x = ∑ x ∈ s, h₀ x + n * k := by
  induction hRows with
  | start => rw [Nat.zero_mul, Nat.add_zero]
  | row before hRow hCard ih => rw [hRow.sum, ih, hCard, Nat.succ_mul, Nat.add_assoc]

/-- No member is left out by three rows, nor by two in the middle of a round. -/
theorem Rows.nearEven (hEven : (s : Set α).EquitableOn h₀)
    (hAgain : ∀ b, b + 1 < n → master b = master (b + 1) → s.card ∣ b + 1) (hSome : 0 < k)
    (hTwice : k + k < s.card) (hRoom : k = 1 ∨ k + k + k < s.card) : NearEven s master k n h := by
  induction hRows with
  | start => exact .even hEven
  | @row n h h' taken before hRow hCard ih =>
    have hNonempty : taken.Nonempty := Finset.card_pos.mp (by omega)
    cases ih fun b hb => hAgain b (by omega) with
    | even hEven =>
      rcases row_of_equitable hEven hRow with hEven' | ⟨l, hBehind⟩
      · exact .even hEven'
      · exact .once (hCard ▸ hBehind)
    | @once n l _ hBehind =>
      by_cases hSame : master n = master (n + 1)
      · rw [← hSame] at hRow
        exact .twice (hCard ▸ hBehind.row_again hRow (by omega)) hSame
      · exact .even (hBehind.row_other hRow hSame hNonempty (by omega))
    | @twice n l _ hBehind hSame =>
      refine .even (hBehind.row_other hRow ?_ hNonempty (by omega))
      intro hThird
      -- both of two numbers that follow one another would be multiples
      have hFirst := hAgain n (by omega) hSame
      have hSecond := hAgain (n + 1) (by omega) (hSame.symm.trans hThird)
      have hOne := (Nat.dvd_add_right hFirst).mp hSecond
      have := Nat.le_of_dvd Nat.one_pos hOne
      omega

/-- **Shares.** Nobody is behind at the end who misses a thing, if at least `k` things are left
over, and the last two rows leave out two members, or there are more left over. -/
theorem Rows.le_of_spread (hEven : (s : Set α).EquitableOn h₀)
    (hAgain : ∀ b, b + 1 < n → master b = master (b + 1) → s.card ∣ b + 1) (hSome : 0 < k)
    (hTwice : k + k < s.card) (hRoom : k = 1 ∨ k + k + k < s.card)
    (hRest : k ≤ (∑ x ∈ s, h x) % s.card)
    (hLast : n % s.card = 1 → k + k ≤ (∑ x ∈ s, h x) % s.card) :
    ∀ x ∈ s, (∑ x ∈ s, h x) / s.card ≤ h x := by
  cases hRows.nearEven hEven hAgain hSome hTwice hRoom with
  | even hEven' =>
    intro x hx
    rcases Finset.equitableOn_iff.mp hEven' x hx with hEq | hEq
    · exact hEq.ge
    · omega
  | once hBehind => exact hBehind.share_le hRest
  | @twice n l _ hBehind hSame =>
    obtain ⟨q, hq⟩ := hAgain n (by omega) hSame
    refine hBehind.share_le (hLast ?_)
    rw [show n + 2 = 1 + s.card * q by omega, Nat.add_mul_mod_self_left]
    exact Nat.mod_eq_of_lt (by omega)

/-- When nobody had more than one thing, and the members that are left out had one, nobody gets a
second before everybody has a first. -/
theorem Rows.le_of_few (hFew : ∀ x ∈ s, h₀ x ≤ 1) (hMaster : ∀ b < n, 1 ≤ h₀ (master b))
    (hTotal : ∑ x ∈ s, h x < 2 * s.card) : ∀ x ∈ s, (∑ x ∈ s, h x) / s.card ≤ h x := by
  have hFirst : ((∀ x ∈ s, h x ≤ 1) ∨ ∀ x ∈ s, 1 ≤ h x) ∧ ∀ x ∈ s, h₀ x ≤ h x := by
    clear hTotal
    induction hRows with
    | start => exact ⟨Or.inl hFew, fun _ _ => le_rfl⟩
    | @row n h h' taken before hRow hCard ih =>
      obtain ⟨hOne, hKept⟩ := ih fun b hb => hMaster b (by omega)
      have hGrows : ∀ x ∈ s, h x ≤ h' x := by
        intro x hx
        rw [hRow.incr x hx]
        exact Nat.le_add_right _ _
      refine ⟨?_, fun x hx => (hKept x hx).trans (hGrows x hx)⟩
      by_cases hAll : ∀ x ∈ s, 1 ≤ h' x
      · exact Or.inr hAll
      · obtain ⟨z, hz, hzZero⟩ : ∃ z ∈ s, h' z < 1 := by simpa using hAll
        have hzOld := hGrows z hz
        have hzNot : z ∉ taken := by
          intro hzT
          rw [hRow.eq_of_taken hzT] at hzZero
          omega
        have hzm : z ≠ master n := by
          rintro rfl
          have := hMaster n (by omega)
          have := hKept _ hRow.member
          omega
        have hOld : ∀ x ∈ s, h x ≤ 1 := by
          rcases hOne with hOne | hOne
          · exact hOne
          · have := hOne z hz
            omega
        refine Or.inl fun x hx => ?_
        by_cases hxT : x ∈ taken
        · have hLe := hRow.least x hxT z hz hzm hzNot
          rw [hRow.eq_of_taken hxT]
          omega
        · rw [hRow.eq_of_not_taken hx hxT]
          exact hOld x hx
  intro x hx
  have hShare : (∑ x ∈ s, h x) / s.card < 2 := Nat.div_lt_of_lt_mul (by omega)
  by_contra hLess
  rcases hFirst.1 with hOne | hOne
  · -- somebody has nothing and nobody has two things: there are too few of them
    have hSum : ∑ y ∈ s, h y < ∑ _y ∈ s, 1 := Finset.sum_lt_sum hOne ⟨x, hx, by omega⟩
    rw [Finset.sum_const, smul_eq_mul, mul_one] at hSum
    rw [Nat.div_eq_of_lt hSum] at hLess
    omega
  · have := hOne x hx
    omega

/-- When everybody else gets something, a member misses the rows that leave it out. -/
theorem Rows.eq_of_all (hAll : k + 1 = s.card) {x : α} (hx : x ∈ s) :
    h x + ((List.range n).map master).count x = h₀ x + n := by
  induction hRows with
  | start => rfl
  | @row n h h' taken before hRow hCard ih =>
    have hTaken : taken = s.erase (master n) := by
      refine Finset.eq_of_subset_of_card_le hRow.subset ?_
      rw [Finset.card_erase_of_mem hRow.member]
      omega
    rw [List.range_succ, List.map_append, List.count_append, List.map_singleton,
      List.count_singleton, hRow.incr x hx]
    by_cases hxm : x = master n
    · rw [if_neg (by rw [hTaken, hxm]; simp), if_pos (by simp [hxm])]
      omega
    · rw [if_pos (by rw [hTaken]; exact Finset.mem_erase.mpr ⟨hxm, hx⟩),
        if_neg (by simpa using Ne.symm hxm)]
      omega

end Rows

end MyBase.Lib

import Mathlib

/-!
# Giving away a surplus

Every member of a finite set has a share of copies. In each round a member with a surplus
gets rid of one: it gives a copy to a member below its share; or, when no such member can
take one, it keeps the copy, as long as there are copies to spare; or it gives the copy to a
member that will then have one more than its share (`Round`). A member that can neither give
nor keep a copy is stuck.

Which copies a member can take is not said here; a round only says how many members could
not.

* `Round.sum_toNat_lt` — rounds come to an end;
* `Spread` — what holds when every member can give away all that it has;
* `Settling` — what holds when a part of a member's copies is fixed (`own`). Members do not
  get stuck (`Settling.not_stuck`) as long as nobody's fixed part is more than one above its
  share.
-/

namespace MyBase.Lib

/-- The counters of the members. -/
structure Loads (α : Type) where
  /-- What a member has beyond what it may keep. -/
  surplus : α → Int
  /-- What a member may keep beyond its share. -/
  extra : α → Int
  /-- How many of its copies a member may give away. -/
  movable : α → Int
  /-- How many copies are left that may be kept. -/
  spare : Int

variable {α : Type} [DecidableEq α]

/-- No member below its share can take a copy of `d`: each has a copy of its own for each of
those of `d`, and there are not more such members than those who cannot take one copy. -/
structure Blocked (members : Finset α) (copies : α → Int) (c : Nat) (d : α) (l : Loads α) :
    Prop where
  copies : ∀ n ∈ members, l.surplus n < 0 → l.movable d ≤ copies n
  few : 0 < l.movable d → (members.filter fun n => l.surplus n < 0).card ≤ c

/-- A round for the member `d`. -/
inductive Round (members : Finset α) (copies : α → Int) (c : Nat) (d : α) (l l' : Loads α) : Prop
  | give (n : α) (hn : n ∈ members) (hNeedy : l.surplus n < 0)
      (hSurplus : ∀ x, l'.surplus x =
        l.surplus x - (if x = d then 1 else 0) + if x = n then 1 else 0)
      (hMovable : ∀ x, l'.movable x =
        l.movable x - (if x = d then 1 else 0) + if x = n then 1 else 0)
      (hExtra : ∀ x, l'.extra x = l.extra x) (hSpare : l'.spare = l.spare)
  | keep (hBlocked : Blocked members copies c d l) (hFirst : l.extra d = 0) (hLeft : 0 < l.spare)
      (hSurplus : ∀ x, l'.surplus x = l.surplus x - if x = d then 1 else 0)
      (hMovable : ∀ x, l'.movable x = l.movable x)
      (hExtra : ∀ x, l'.extra x = l.extra x + if x = d then 1 else 0)
      (hSpare : l'.spare = l.spare - 1)
  | push (a : α) (hBlocked : Blocked members copies c d l)
      (hNot : ¬ (l.extra d = 0 ∧ 0 < l.spare)) (ha : a ∈ members) (hNotNeedy : 0 ≤ l.surplus a)
      (hLight : (members.filter fun x =>
        l.extra x + l.surplus x < l.extra a + l.surplus a).card ≤ c)
      (hSurplus : ∀ x, l'.surplus x = l.surplus x - if x = d then 1 else 0)
      (hMovable : ∀ x, l'.movable x =
        l.movable x - (if x = d then 1 else 0) + if x = a ∧ a ≠ d then 1 else 0)
      (hExtra : ∀ x, l'.extra x = l.extra x + if x = a then 1 else 0)
      (hSpare : l'.spare = l.spare - 1)

section Round

variable {members : Finset α} {copies : α → Int} {c : Nat} {d : α} {l l' : Loads α}

variable (h : Round members copies c d l l')
include h

/-- The surplus of `d` shrinks by one; otherwise only what is below its share grows. -/
theorem Round.surplus (hPos : 0 < l.surplus d) (x : α) :
    (x = d → l'.surplus x = l.surplus x - 1) ∧
      (x ≠ d → l'.surplus x = l.surplus x ∨ l.surplus x < 0 ∧ l'.surplus x = l.surplus x + 1) := by
  cases h with
  | give n _ hNeedy hSurplus _ _ _ =>
    rw [hSurplus x]
    refine ⟨?_, ?_⟩
    · rintro rfl
      rw [if_pos rfl, if_neg (by rintro rfl; omega)]
      omega
    · intro hx
      rw [if_neg hx]
      by_cases hxn : x = n
      · subst hxn
        exact Or.inr ⟨hNeedy, by simp⟩
      · exact Or.inl (by simp [hxn])
  | keep _ _ _ hSurplus _ _ _ =>
    rw [hSurplus x]
    exact ⟨fun hx => by rw [if_pos hx], fun hx => Or.inl (by rw [if_neg hx, sub_zero])⟩
  | push _ _ _ _ _ _ hSurplus _ _ _ =>
    rw [hSurplus x]
    exact ⟨fun hx => by rw [if_pos hx], fun hx => Or.inl (by rw [if_neg hx, sub_zero])⟩

theorem Round.needy (hPos : 0 < l.surplus d) {x : α} (hx : l'.surplus x < 0) : l.surplus x < 0 := by
  obtain ⟨hSelf, hOther⟩ := h.surplus hPos x
  by_cases hxd : x = d
  · have hEq := hSelf hxd
    subst hxd
    omega
  · rcases hOther hxd with hEq | ⟨hNeg, -⟩
    · omega
    · exact hNeg

/-- **The measure.** What is above the shares, all in all, shrinks. -/
theorem Round.sum_toNat_lt (hd : d ∈ members) (hPos : 0 < l.surplus d) :
    ∑ x ∈ members, (l'.surplus x).toNat < ∑ x ∈ members, (l.surplus x).toNat := by
  refine Finset.sum_lt_sum ?_ ⟨d, hd, ?_⟩
  · intro x _
    obtain ⟨hSelf, hOther⟩ := h.surplus hPos x
    by_cases hxd : x = d
    · have hEq := hSelf hxd
      omega
    · rcases hOther hxd with hEq | ⟨hNeg, hEq⟩ <;> omega
  · have hEq := (h.surplus hPos d).1 rfl
    omega

/-- What a member may give away beyond what it needs to: its surplus and the part of its
share that is not `own`. -/
def Loads.slack (l : Loads α) (share : Int) (own : α → Int) (x : α) : Int :=
  l.movable x - (share + l.surplus x - own x)

/-- Who gives a copy away loses surplus with it; who keeps one, or is given one beyond its
share, gains slack. -/
theorem Round.slack (share : Int) (own : α → Int) (x : α) :
    l.slack share own x ≤ l'.slack share own x := by
  unfold Loads.slack
  cases h with
  | give n _ _ hSurplus hMovable _ _ =>
    rw [hSurplus x, hMovable x]
    omega
  | keep _ _ _ hSurplus hMovable _ _ =>
    rw [hSurplus x, hMovable x]
    split <;> omega
  | push _ _ _ _ _ _ hSurplus hMovable _ _ =>
    rw [hSurplus x, hMovable x]
    split <;> split <;> omega

theorem Round.extra (x : α) : l.extra x ≤ l'.extra x := by
  cases h with
  | give _ _ _ _ _ hExtra _ => rw [hExtra x]
  | keep _ _ _ _ _ hExtra _ =>
    rw [hExtra x]
    split <;> omega
  | push _ _ _ _ _ _ _ _ hExtra _ =>
    rw [hExtra x]
    split <;> omega

theorem Round.spare_le : l'.spare ≤ l.spare := by
  cases h with
  | give _ _ _ _ _ _ hSpare => omega
  | keep _ _ _ _ _ _ hSpare => omega
  | push _ _ _ _ _ _ _ _ _ hSpare => omega

end Round

-- When everything can be given away

/-- The members can give away all that they have; what they may keep beyond their share is
bounded by what all of them have. -/
structure Spread (members : Finset α) (c : Nat) (share total bound : Int) (l : Loads α) :
    Prop where
  enough : ∀ x ∈ members, share + l.surplus x ≤ l.movable x
  extra_nonneg : ∀ x ∈ members, 0 ≤ l.extra x
  load_nonneg : ∀ x ∈ members, 0 ≤ share + l.surplus x + l.extra x
  sum_le : ∑ x ∈ members, (share + l.surplus x + l.extra x) ≤ total
  extra_le : ∀ x ∈ members, share + l.extra x ≤ bound + 1
  /-- When every member can take every copy, nothing is kept before all have their share. -/
  served : c = 0 → ∀ x ∈ members, 0 < l.extra x → ∀ y ∈ members, 0 ≤ l.surplus y

section Spread

variable {members : Finset α} {copies : α → Int} {c : Nat} {d : α} {l l' : Loads α}
  {share total bound : Int}

omit [DecidableEq α] in
/-- When all but `c` members have at least as much as `a`, that is a bound for `a`. -/
theorem load_le_of_light {load : α → Int} {a : α} (hNonneg : ∀ x ∈ members, 0 ≤ load x)
    (hSum : ∑ x ∈ members, load x ≤ total)
    (hLight : (members.filter fun x => load x < load a).card ≤ c) (ha : 0 ≤ load a) :
    ((members.card : Int) - c) * load a ≤ total := by
  have hSplit := Finset.card_filter_add_card_filter_not (s := members) fun x => load x < load a
  have hHeavy : ((members.filter fun x => ¬ load x < load a).card : Int) * load a ≤
      ∑ x ∈ members.filter fun x => ¬ load x < load a, load x := by
    rw [← nsmul_eq_mul]
    refine Finset.card_nsmul_le_sum _ _ _ ?_
    intro x hx
    exact not_lt.mp (Finset.mem_filter.mp hx).2
  have hPart : ∑ x ∈ members.filter (fun x => ¬ load x < load a), load x ≤
      ∑ x ∈ members, load x :=
    Finset.sum_le_sum_of_subset_of_nonneg (Finset.filter_subset _ _) fun x hx _ => hNonneg x hx
  have hCard : (members.card : Int) - c ≤
      ((members.filter fun x => ¬ load x < load a).card : Int) := by omega
  calc ((members.card : Int) - c) * load a
      ≤ ((members.filter fun x => ¬ load x < load a).card : Int) * load a :=
        mul_le_mul_of_nonneg_right hCard ha
    _ ≤ total := hHeavy.trans (hPart.trans hSum)

/-- Surplus and extra copies together do not change. -/
theorem Round.sum_loads (h : Round members copies c d l l') (hd : d ∈ members) (share : Int) :
    ∑ x ∈ members, (share + l'.surplus x + l'.extra x) =
      ∑ x ∈ members, (share + l.surplus x + l.extra x) := by
  cases h with
  | give n hn _ hSurplus _ hExtra _ =>
    simp only [hSurplus, hExtra, Finset.sum_add_distrib, Finset.sum_sub_distrib,
      Finset.sum_ite_eq', if_pos hd, if_pos hn]
    omega
  | keep _ _ _ hSurplus _ hExtra _ =>
    simp only [hSurplus, hExtra, Finset.sum_add_distrib, Finset.sum_sub_distrib,
      Finset.sum_ite_eq', if_pos hd]
    omega
  | push a _ _ ha _ _ hSurplus _ hExtra _ =>
    simp only [hSurplus, hExtra, Finset.sum_add_distrib, Finset.sum_sub_distrib,
      Finset.sum_ite_eq', if_pos hd, if_pos ha]
    omega

/-- **Step lemma.** -/
theorem Spread.round (h : Spread members c share total bound l)
    (hRound : Round members copies c d l l') (hd : d ∈ members) (hPos : 0 < l.surplus d)
    (hShare : 0 ≤ share) (hLow : share ≤ bound)
    (hBound : ∀ v : Int, ((members.card : Int) - c) * v ≤ total → v ≤ bound) :
    Spread members c share total bound l' where
  enough := by
    intro x hx
    have hBefore := h.enough x hx
    have hSlack := hRound.slack share 0 x
    simp only [Loads.slack, Pi.zero_apply] at hSlack
    omega
  extra_nonneg := fun x hx => (h.extra_nonneg x hx).trans (hRound.extra x)
  load_nonneg := by
    intro x hx
    have hBefore := h.load_nonneg x hx
    have hExtra := h.extra_nonneg x hx
    have hMore := hRound.extra x
    obtain ⟨hSelf, hOther⟩ := hRound.surplus hPos x
    by_cases hxd : x = d
    · have hEq := hSelf hxd
      subst hxd
      omega
    · rcases hOther hxd with hEq | ⟨-, hEq⟩ <;> omega
  sum_le := by
    rw [hRound.sum_loads hd]
    exact h.sum_le
  extra_le := by
    intro x hx
    have hBefore := h.extra_le x hx
    cases hRound with
    | give _ _ _ _ _ hExtra _ =>
      rw [hExtra x]
      exact hBefore
    | keep _ hFirst _ _ _ hExtra _ =>
      rw [hExtra x]
      split
      · rename_i hxd
        rw [hxd, hFirst]
        omega
      · omega
    | push a _ _ ha hNotNeedy hLight _ _ hExtra _ =>
      rw [hExtra x]
      split
      · -- what `a` has bounds what it may keep
        rename_i hxa
        subst hxa
        have hLoad : share + l.surplus x + l.extra x ≤ bound := by
          refine hBound _ (load_le_of_light h.load_nonneg h.sum_le ?_ (h.load_nonneg x hx))
          refine le_trans (Finset.card_le_card ?_) hLight
          intro y hy
          rw [Finset.mem_filter] at hy ⊢
          exact ⟨hy.1, by omega⟩
        omega
      · omega
  served := by
    intro hc x hx hExtra y hy
    by_contra hNeg
    have hNeedy : l.surplus y < 0 := hRound.needy hPos (not_le.mp hNeg)
    -- `d` has a copy to give, so nobody is below its share unless `y` could take it
    have hGives : 0 < l.movable d := by
      have hEnough := h.enough d hd
      omega
    have hNone : ¬ Blocked members copies c d l := by
      intro hBlocked
      have hFew := hBlocked.few hGives
      rw [hc, Nat.le_zero, Finset.card_eq_zero, Finset.filter_eq_empty_iff] at hFew
      exact hFew hy hNeedy
    cases hRound with
    | give _ _ _ _ _ hSame _ =>
      rw [hSame x] at hExtra
      have hServed := h.served hc x hx hExtra y hy
      omega
    | keep hBlocked _ _ _ _ _ _ => exact hNone hBlocked
    | push _ hBlocked _ _ _ _ _ _ _ _ => exact hNone hBlocked

end Spread

-- When a part of the copies is fixed

/-- A member has slack. -/
def Loads.Loose (l : Loads α) (share : Int) (own : α → Int) (x : α) : Prop :=
  0 < l.slack share own x

instance (l : Loads α) (share : Int) (own : α → Int) (x : α) :
    Decidable (l.Loose share own x) := by
  unfold Loads.Loose
  infer_instance

/-- How many copies a member with slack can have let be kept: not more than it has of its
own. -/
def Loads.used (l : Loads α) (share : Int) (own : α → Int) (x : α) : Int :=
  if l.Loose share own x then max 0 (own x - l.surplus x) else 0

/-- `own x` of the copies of `x` are fixed. While some member is below its share, every copy
that is kept is counted by `used` for a member with slack. -/
structure Settling (members : Finset α) (share : Int) (own : α → Int) (kept : Int)
    (l : Loads α) : Prop where
  slack : ∀ x ∈ members, 0 ≤ l.slack share own x
  extra_nonneg : ∀ x ∈ members, 0 ≤ l.extra x
  extra_needy : ∀ x ∈ members, l.surplus x < 0 → l.extra x = 0
  loose_needy : ∀ x ∈ members, l.surplus x < 0 → ¬ l.Loose share own x
  loose_extra : 0 < l.spare → ∀ x ∈ members, l.extra x ≠ 0 → l.Loose share own x
  sum_le : ∑ x ∈ members, l.surplus x ≤ l.spare
  /-- Whose own part is one above its share has few others beside it. -/
  few : (∃ n ∈ members, l.surplus n < 0) → ∀ a ∈ members, own a = share + 1 →
    ∑ x ∈ members.erase a, own x < kept
  spent : (∃ n ∈ members, l.surplus n < 0) → 0 < l.spare →
    kept - l.spare ≤ ∑ x ∈ members, l.used share own x
  closed : (∃ n ∈ members, l.surplus n < 0) → l.spare ≤ 0 → ∀ a ∈ members, own a = share + 1 →
    l.Loose share own a

section Settling

variable {members : Finset α} {copies : α → Int} {c : Nat} {d : α} {l l' : Loads α}
  {share kept : Int} {own : α → Int}

variable (h : Settling members share own kept l)
include h

/-- A member with a surplus can give a copy away, or keep it. -/
theorem Settling.not_stuck (hd : d ∈ members) (hPos : 0 < l.surplus d) (hOwn : own d ≤ share + 1)
    (hEmpty : l.movable d = 0) : l.extra d = 0 ∧ 0 < l.spare := by
  have hSlack := h.slack d hd
  have hTight : ¬ l.Loose share own d ∧ own d = share + 1 := by
    unfold Loads.Loose
    unfold Loads.slack at hSlack ⊢
    omega
  by_cases hLeft : 0 < l.spare
  · refine ⟨?_, hLeft⟩
    by_contra hExtra
    exact hTight.1 (h.loose_extra hLeft d hd hExtra)
  · -- then somebody is below its share
    have hSum := h.sum_le
    obtain ⟨n, hn, hNeedy⟩ : ∃ n ∈ members, l.surplus n < 0 := by
      by_contra hNone
      push Not at hNone
      have hLe : l.surplus d ≤ ∑ x ∈ members, l.surplus x := Finset.single_le_sum hNone hd
      omega
    exact absurd (h.closed ⟨n, hn, hNeedy⟩ (by omega) d hd hTight.2) hTight.1

omit h in
theorem Loads.Loose.round {x : α} (h : l.Loose share own x)
    (hRound : Round members copies c d l l') : l'.Loose share own x :=
  lt_of_lt_of_le h (hRound.slack share own x)

omit h in
/-- A round changes neither the slack nor the extra copies of who is below its share. -/
theorem Round.of_needy (h : Round members copies c d l l') (hPos : 0 < l.surplus d)
    (share : Int) (own : α → Int) {x : α} (hx : l.surplus x < 0) :
    l'.extra x = l.extra x ∧ l'.slack share own x = l.slack share own x := by
  have hxd : x ≠ d := by
    rintro rfl
    omega
  unfold Loads.slack
  cases h with
  | give n _ _ hSurplus hMovable hExtra _ =>
    rw [hSurplus x, hMovable x]
    exact ⟨hExtra x, by omega⟩
  | keep _ _ _ hSurplus hMovable hExtra _ =>
    rw [hSurplus x, hMovable x, hExtra x, if_neg hxd]
    omega
  | push a _ _ _ hNotNeedy _ hSurplus hMovable hExtra _ =>
    have hxa : x ≠ a := by
      rintro rfl
      omega
    rw [hSurplus x, hMovable x, hExtra x, if_neg hxd, if_neg hxa, if_neg fun hAnd => hxa hAnd.1]
    omega

variable (hRound : Round members copies c d l l')
include hRound

/-- What is kept while there are copies to spare gives a member slack. -/
theorem Settling.loose_extra_round (hSpare : 0 < l'.spare) {x : α} (hx : x ∈ members)
    (hExtra' : l'.extra x ≠ 0) : l'.Loose share own x := by
  -- who had an extra copy before had slack
  have hBefore : 0 < l.spare → l.extra x ≠ 0 → l'.Loose share own x := fun hLeft hExtra =>
    (h.loose_extra hLeft x hx hExtra).round hRound
  have hSlack := h.slack x hx
  cases hRound with
  | give _ _ _ _ _ hExtra hLeft =>
    rw [hLeft] at hSpare
    rw [hExtra x] at hExtra'
    exact hBefore hSpare hExtra'
  | keep _ _ hLeft hSurplus hMovable hExtra _ =>
    by_cases hxd : x = d
    · unfold Loads.Loose
      unfold Loads.slack at hSlack ⊢
      rw [hSurplus x, hMovable x, if_pos hxd]
      omega
    · rw [hExtra x, if_neg hxd, add_zero] at hExtra'
      exact hBefore hLeft hExtra'
  | push a _ hNot _ _ _ hSurplus hMovable hExtra hLeft =>
    have hOpen : 0 < l.spare := by omega
    by_cases hxa : x = a
    · subst hxa
      by_cases hxd : x = d
      · subst hxd
        exact hBefore hOpen fun hZero => hNot ⟨hZero, hOpen⟩
      · unfold Loads.Loose
        unfold Loads.slack at hSlack ⊢
        rw [hSurplus x, hMovable x, if_neg hxd, if_pos ⟨rfl, hxd⟩]
        omega
    · rw [hExtra x, if_neg hxa, add_zero] at hExtra'
      exact hBefore hOpen hExtra'

/-- What a member is counted for does not shrink. -/
theorem Settling.used_le (hPos : 0 < l.surplus d) {x : α} (hx : x ∈ members) :
    l.used share own x ≤ l'.used share own x := by
  unfold Loads.used
  by_cases hLoose : l.Loose share own x
  · have hNot : ¬ l.surplus x < 0 := fun hNeedy => h.loose_needy x hx hNeedy hLoose
    obtain ⟨hSelf, hOther⟩ := hRound.surplus hPos x
    rw [if_pos hLoose, if_pos (hLoose.round hRound)]
    by_cases hxd : x = d
    · have hEq := hSelf hxd
      omega
    · rcases hOther hxd with hEq | ⟨hNeg, -⟩
      · omega
      · exact absurd hNeg hNot
  · rw [if_neg hLoose]
    split
    · exact le_max_left _ _
    · exact le_refl _

omit hRound in
/-- A member that cannot give a copy to anyone below its share is counted for one more. -/
theorem Settling.used_lt (hBlocked : Blocked members copies c d l) (hd : d ∈ members)
    (hCopies : ∀ x ∈ members, copies x = share + l.surplus x + l.extra x) {n : α} (hn : n ∈ members)
    (hNeedy : l.surplus n < 0) (hLess : l'.surplus d = l.surplus d - 1)
    (hLoose : l'.Loose share own d) : l.used share own d < l'.used share own d := by
  have hMovable := hBlocked.copies n hn hNeedy
  rw [hCopies n hn, h.extra_needy n hn hNeedy] at hMovable
  have hSlack := h.slack d hd
  have hRoom : 0 < own d - l.surplus d := by
    unfold Loads.slack at hSlack
    omega
  unfold Loads.used
  rw [if_pos hLoose, hLess]
  split <;> omega

/-- **The count.** As long as a member is below its share, the copies that have been kept are
counted, the one that is kept last included. -/
theorem Settling.spent_round (hd : d ∈ members) (hPos : 0 < l.surplus d)
    (hCopies : ∀ x ∈ members, copies x = share + l.surplus x + l.extra x) {n : α} (hn : n ∈ members)
    (hNeedy : l.surplus n < 0) (hSpare : 0 < l.spare) :
    kept - l'.spare ≤ ∑ x ∈ members, l'.used share own x := by
  have hSpent := h.spent ⟨n, hn, hNeedy⟩ hSpare
  have hMono : ∀ x ∈ members, l.used share own x ≤ l'.used share own x := fun x hx =>
    h.used_le hRound hPos hx
  have hLess : l'.surplus d = l.surplus d - 1 := (hRound.surplus hPos d).1 rfl
  have hCounted : Blocked members copies c d l → l'.Loose share own d →
      ∑ x ∈ members, l.used share own x < ∑ x ∈ members, l'.used share own x :=
    fun hBlocked hLoose => Finset.sum_lt_sum hMono
      ⟨d, hd, h.used_lt hBlocked hd hCopies hn hNeedy hLess hLoose⟩
  have hSlack := h.slack d hd
  cases hRound with
  | give _ _ _ _ _ _ hSame =>
    have hSum := Finset.sum_le_sum hMono
    omega
  | keep hBlocked _ _ hSurplus hMovable _ hOne =>
    have hLoose : l'.Loose share own d := by
      unfold Loads.Loose
      unfold Loads.slack at hSlack ⊢
      rw [hLess, hMovable d]
      omega
    have hSum := hCounted hBlocked hLoose
    omega
  | push _ hBlocked hNot _ _ _ hSurplus hMovable hExtra hOne =>
    -- `d` has been allowed an extra copy before, so it has slack
    have hLoose : l.Loose share own d :=
      h.loose_extra hSpare d hd fun hZero => hNot ⟨hZero, hSpare⟩
    have hLoose' : l'.Loose share own d := by
      unfold Loads.Loose Loads.slack at hLoose ⊢
      rw [hLess, hMovable d, if_pos rfl]
      split <;> omega
    have hSum := hCounted hBlocked hLoose'
    omega

/-- **Step lemma.** -/
theorem Settling.round (hd : d ∈ members) (hPos : 0 < l.surplus d)
    (hCopies : ∀ x ∈ members, copies x = share + l.surplus x + l.extra x)
    (hOwn : ∀ x ∈ members, 0 ≤ own x) : Settling members share own kept l' := by
  have hLooseNeedy : ∀ x ∈ members, l'.surplus x < 0 → ¬ l'.Loose share own x := by
    intro x hx hNeedy
    have hBefore := hRound.needy hPos hNeedy
    unfold Loads.Loose
    rw [(hRound.of_needy hPos share own hBefore).2]
    exact h.loose_needy x hx hBefore
  have hNeedyBefore : (∃ n ∈ members, l'.surplus n < 0) → ∃ n ∈ members, l.surplus n < 0 :=
    fun ⟨n, hn, hNeedy⟩ => ⟨n, hn, hRound.needy hPos hNeedy⟩
  have hFew : (∃ n ∈ members, l'.surplus n < 0) → ∀ a ∈ members, own a = share + 1 →
      ∑ x ∈ members.erase a, own x < kept := fun hNeedy => h.few (hNeedyBefore hNeedy)
  refine ⟨?_, ?_, ?_, hLooseNeedy, ?_, ?_, hFew, ?_, ?_⟩
  · exact fun x hx => (h.slack x hx).trans (hRound.slack share own x)
  · exact fun x hx => (h.extra_nonneg x hx).trans (hRound.extra x)
  · intro x hx hNeedy
    have hBefore := hRound.needy hPos hNeedy
    rw [(hRound.of_needy hPos share own hBefore).1]
    exact h.extra_needy x hx hBefore
  · exact fun hSpare x hx hExtra => h.loose_extra_round hRound hSpare hx hExtra
  · have hSum := h.sum_le
    cases hRound with
    | give n hn _ hSurplus _ _ hSame =>
      simp only [hSurplus, Finset.sum_add_distrib, Finset.sum_sub_distrib, Finset.sum_ite_eq',
        if_pos hd, if_pos hn]
      omega
    | keep _ _ _ hSurplus _ _ hOne =>
      simp only [hSurplus, Finset.sum_sub_distrib, Finset.sum_ite_eq', if_pos hd]
      omega
    | push _ _ _ _ _ _ hSurplus _ _ hOne =>
      simp only [hSurplus, Finset.sum_sub_distrib, Finset.sum_ite_eq', if_pos hd]
      omega
  · intro hNeedy hSpare
    obtain ⟨n, hn, hBefore⟩ := hNeedyBefore hNeedy
    exact h.spent_round hRound hd hPos hCopies hn hBefore (hSpare.trans_le hRound.spare_le)
  · intro hNeedy hSpare a ha hAbove
    obtain ⟨n, hn, hBefore⟩ := hNeedyBefore hNeedy
    by_cases hOpen : 0 < l.spare
    · -- the last copy to spare has been kept in this round
      by_contra hTight
      have hSpent := h.spent_round hRound hd hPos hCopies hn hBefore hOpen
      have hUsed : ∀ x ∈ members, l'.used share own x ≤ if x = a then 0 else own x := by
        intro x hx
        unfold Loads.used
        by_cases hxa : x = a
        · rw [if_pos hxa, if_neg (hxa ▸ hTight)]
        · rw [if_neg hxa]
          split
          · rename_i hLoose
            have hNot : ¬ l'.surplus x < 0 := fun hLow => hLooseNeedy x hx hLow hLoose
            have hNonneg := hOwn x hx
            omega
          · exact hOwn x hx
      have hSum := Finset.sum_le_sum hUsed
      have hErase : ∑ x ∈ members, (if x = a then 0 else own x) = ∑ x ∈ members.erase a, own x := by
        rw [← Finset.add_sum_erase members _ ha, if_pos rfl, zero_add]
        exact Finset.sum_congr rfl fun x hx => if_neg (Finset.ne_of_mem_erase hx)
      have hBound := hFew hNeedy a ha hAbove
      omega
    · exact (h.closed ⟨n, hn, hBefore⟩ (by omega) a ha hAbove).round hRound

end Settling

end MyBase.Lib

import Mathlib.Algebra.BigOperators.Group.Finset.Basic
import Mathlib.Algebra.Order.BigOperators.Group.Finset
import Mathlib.Data.Finset.Max

/-!
Evicting the least recently used items until the rest fits.

Every item has a stamp and a size. `Drains` is the eviction with its free choice: while
the held items are too large together, any item with the least stamp may go. When every
stamp belongs to one item there is no choice. Otherwise the outcome may depend on it,
unless the items that share a stamp have to go all together (`Whole`).

* `keep`: the items whose stamp is recent enough for everything at least as recent to fit.
* `Drains.eq_keep`: under `Whole` every way of evicting ends in `keep`.
-/

namespace Gateway.Eviction

variable {α : Type} [DecidableEq α] (stamp size : α → Nat) (cap : Nat)

/-- Some order of evictions leads from the items `held` to the items `kept`. -/
inductive Drains : Finset α → Finset α → Prop where
  | fits {held : Finset α} (small : ∑ n ∈ held, size n ≤ cap) : Drains held held
  | evict {held kept : Finset α} (victim : α) (member : victim ∈ held)
      (least : ∀ n ∈ held, stamp victim ≤ stamp n) (large : cap < ∑ n ∈ held, size n)
      (rest : Drains (held.erase victim) kept) : Drains held kept

/-- If one of several items that share a stamp has to go, then all of them have to go:
each is too large for what is more recent. -/
def Whole (held : Finset α) : Prop :=
  ∀ x ∈ held, ∀ y ∈ held, x ≠ y → stamp x = stamp y →
    cap < ∑ n ∈ held with stamp x ≤ stamp n, size n →
    cap < (∑ n ∈ held with stamp x < stamp n, size n) + size x

instance decidableWhole (held : Finset α) : Decidable (Whole stamp size cap held) :=
  inferInstanceAs (Decidable (∀ x ∈ held, ∀ y ∈ held, x ≠ y → stamp x = stamp y → _ → _))

section Newest

variable {stamp size : α → Nat} {cap : Nat} {old new : Finset α} {latest : Nat}

omit [DecidableEq α] in
theorem Whole.congr {stamp' size' : α → Nat} {held : Finset α}
    (stamps : ∀ x ∈ held, stamp' x = stamp x) (sizes : ∀ x ∈ held, size' x = size x)
    (whole : Whole stamp size cap held) : Whole stamp' size' cap held := by
  intro x hx y hy ne tied
  have since : ∑ n ∈ held with stamp' x ≤ stamp' n, size' n =
      ∑ n ∈ held with stamp x ≤ stamp n, size n := by
    rw [stamps x hx]
    refine Finset.sum_congr (Finset.filter_congr fun n hn => by rw [stamps n hn]) fun n hn => ?_
    exact sizes n (Finset.mem_filter.mp hn).1
  have after : ∑ n ∈ held with stamp' x < stamp' n, size' n =
      ∑ n ∈ held with stamp x < stamp n, size n := by
    rw [stamps x hx]
    refine Finset.sum_congr (Finset.filter_congr fun n hn => by rw [stamps n hn]) fun n hn => ?_
    exact sizes n (Finset.mem_filter.mp hn).1
  rw [since, after, sizes x hx]
  rw [stamps x hx, stamps y hy] at tied
  exact whole x hx y hy ne tied

/-- What is more recent than an old item: some old ones, and all the newest. -/
theorem sum_newest (apart : Disjoint old new) (newest : ∀ x ∈ new, stamp x = latest)
    (later : Nat → Prop) [DecidablePred later] (latest_later : later latest) :
    ∑ n ∈ old ∪ new with later (stamp n), size n =
      (∑ n ∈ old with later (stamp n), size n) + ∑ n ∈ new, size n := by
  have all : new.filter (fun n => later (stamp n)) = new :=
    Finset.filter_true_of_mem fun n hn => newest n hn ▸ latest_later
  rw [Finset.filter_union, Finset.sum_union (Finset.disjoint_filter_filter apart), all]

/-- Items are added with the greatest stamp, and fit: they leave the others the remaining room. -/
theorem Whole.add_newest (apart : Disjoint old new) (older : ∀ x ∈ old, stamp x < latest)
    (newest : ∀ x ∈ new, stamp x = latest) (fits : ∑ n ∈ new, size n ≤ cap)
    (whole : Whole stamp size (cap - ∑ n ∈ new, size n) old) :
    Whole stamp size cap (old ∪ new) := by
  intro x hx y hy ne tied exceeds
  rcases Finset.mem_union.mp hx with hx | hx
  · have hy : y ∈ old := by
      rcases Finset.mem_union.mp hy with hy | hy
      · exact hy
      · exact absurd (tied.trans (newest y hy)) (Nat.ne_of_lt (older x hx))
    rw [sum_newest apart newest (stamp x ≤ ·) (Nat.le_of_lt (older x hx))] at exceeds
    rw [sum_newest apart newest (stamp x < ·) (older x hx)]
    have := whole x hx y hy ne tied (by omega)
    omega
  · -- the newest items are all that is as recent as one of them
    refine absurd exceeds (Nat.not_lt_of_le (Nat.le_trans (Finset.sum_le_sum_of_subset ?_) fits))
    intro n hn
    obtain ⟨member, recent⟩ := Finset.mem_filter.mp hn
    rcases Finset.mem_union.mp member with hn | hn
    · rw [newest x hx] at recent
      exact absurd recent (Nat.not_le_of_lt (older n hn))
    · exact hn

/-- Items are added with the greatest stamp, each too large by itself: nothing stays. -/
theorem Whole.add_large (apart : Disjoint old new) (older : ∀ x ∈ old, stamp x < latest)
    (newest : ∀ x ∈ new, stamp x = latest) (some_new : new.Nonempty)
    (large : ∀ x ∈ new, cap < size x) : Whole stamp size cap (old ∪ new) := by
  intro x hx _ _ _ _ _
  rcases Finset.mem_union.mp hx with hx | hx
  · obtain ⟨z, hz⟩ := some_new
    have one := Finset.single_le_sum (f := size) (fun _ _ => Nat.zero_le _) hz
    have := large z hz
    rw [sum_newest apart newest (stamp x < ·) (older x hx)]
    omega
  · have := large x hx
    omega

end Newest

/-- The items recent enough to stay. -/
def keep (held : Finset α) : Finset α :=
  held.filter fun x => ∑ n ∈ held with stamp x ≤ stamp n, size n ≤ cap

variable {stamp size : α → Nat} {cap : Nat} {held kept : Finset α}

omit [DecidableEq α] in
theorem keep_subset : keep stamp size cap held ⊆ held := Finset.filter_subset _ _

omit [DecidableEq α] in
/-- What is more recent than something that stays, stays. -/
theorem keep_recent {x y : α} (stays : x ∈ keep stamp size cap held) (member : y ∈ held)
    (recent : stamp x ≤ stamp y) : y ∈ keep stamp size cap held := by
  obtain ⟨_, fits⟩ := Finset.mem_filter.mp stays
  refine Finset.mem_filter.mpr ⟨member, Nat.le_trans (Finset.sum_le_sum_of_subset ?_) fits⟩
  exact Finset.monotone_filter_right held fun n _ later => Nat.le_trans recent later

omit [DecidableEq α] in
theorem sum_keep_le : ∑ n ∈ keep stamp size cap held, size n ≤ cap := by
  rcases (keep stamp size cap held).eq_empty_or_nonempty with none | some
  · simp [none]
  · -- everything that stays is at least as recent as the least recent of it
    obtain ⟨x, stays, least⟩ := Finset.exists_min_image _ stamp some
    obtain ⟨_, fits⟩ := Finset.mem_filter.mp stays
    refine Nat.le_trans (Finset.sum_le_sum_of_subset fun n member => ?_) fits
    exact Finset.mem_filter.mpr ⟨keep_subset member, least n member⟩

/-- The most recent of the items that have to go is too large for what stays. -/
theorem Whole.last_too_large (whole : Whole stamp size cap held) {x : α} (member : x ∈ held)
    (goes : x ∉ keep stamp size cap held)
    (last : ∀ y ∈ held, y ∉ keep stamp size cap held → stamp y ≤ stamp x) :
    cap < (∑ n ∈ keep stamp size cap held, size n) + size x := by
  have exceeds : cap < ∑ n ∈ held with stamp x ≤ stamp n, size n := by
    by_contra fits
    exact goes (Finset.mem_filter.mpr ⟨member, Nat.le_of_not_lt fits⟩)
  have later : ∀ n ∈ held, stamp x < stamp n → n ∈ keep stamp size cap held := by
    intro n member_n later
    by_contra gone
    exact absurd (last n member_n gone) (Nat.not_le_of_lt later)
  by_cases tie : ∃ y ∈ held, x ≠ y ∧ stamp x = stamp y
  · obtain ⟨y, member_y, ne, same⟩ := tie
    refine Nat.lt_of_lt_of_le (whole x member y member_y ne same exceeds) ?_
    refine Nat.add_le_add_right (Finset.sum_le_sum_of_subset fun n member_n => ?_) _
    obtain ⟨member_n, recent⟩ := Finset.mem_filter.mp member_n
    exact later n member_n recent
  · rw [Nat.add_comm, ← Finset.sum_insert goes]
    refine Nat.lt_of_lt_of_le exceeds (Finset.sum_le_sum_of_subset fun n member_n => ?_)
    obtain ⟨member_n, recent⟩ := Finset.mem_filter.mp member_n
    by_cases here : n = x
    · exact here ▸ Finset.mem_insert_self _ _
    · have ne : stamp x ≠ stamp n := fun same => tie ⟨n, member_n, Ne.symm here, same⟩
      exact Finset.mem_insert_of_mem (later n member_n (Nat.lt_of_le_of_ne recent ne))

/-- The rule behind `Drains.eq_keep`, from any moment of the eviction. Here `latest` is the
greatest stamp of the items that have to go, and while any of them is held, one with that
stamp is. -/
theorem Drains.eq_of_latest {stays : Finset α} {latest : Nat}
    (run : Drains stamp size cap held kept) (within : stays ⊆ held)
    (fits : ∑ n ∈ stays, size n ≤ cap)
    (newer : ∀ x ∈ stays, latest < stamp x)
    (older : ∀ x ∈ held, x ∉ stays → stamp x ≤ latest)
    (large : ∀ x ∈ held, x ∉ stays → stamp x = latest → cap < (∑ n ∈ stays, size n) + size x)
    (last : ∀ x ∈ held, x ∉ stays → ∃ y ∈ held, y ∉ stays ∧ stamp y = latest) :
    kept = stays := by
  induction run with
  | @fits held small =>
      refine (Finset.Subset.antisymm within fun x member => ?_).symm
      by_contra gone
      obtain ⟨y, member_y, gone_y, at_latest⟩ := last x member gone
      have too_large := large y member_y gone_y at_latest
      rw [Nat.add_comm, ← Finset.sum_insert gone_y] at too_large
      have part := Finset.sum_le_sum_of_subset (f := size) (Finset.insert_subset member_y within)
      omega
  | @evict held kept victim member least exceeds rest ih =>
      have some_goes : ∃ x ∈ held, x ∉ stays := by
        by_contra none
        push Not at none
        exact absurd (Nat.le_trans (Finset.sum_le_sum_of_subset none) fits)
          (Nat.not_le_of_lt exceeds)
      obtain ⟨x, member_x, gone_x⟩ := some_goes
      obtain ⟨y, member_y, gone_y, at_latest⟩ := last x member_x gone_x
      have early : stamp victim ≤ latest := at_latest ▸ least y member_y
      have victim_goes : victim ∉ stays := fun stay =>
        absurd (newer victim stay) (Nat.not_lt_of_le early)
      apply ih
      · intro n stay
        exact Finset.mem_erase.mpr ⟨fun here => victim_goes (here ▸ stay), within stay⟩
      · exact fun n still => older n (Finset.mem_of_mem_erase still)
      · exact fun n still => large n (Finset.mem_of_mem_erase still)
      · intro n still gone
        obtain ⟨ne, held_n⟩ := Finset.mem_erase.mp still
        by_cases here : y = victim
        · -- the victim had the latest stamp and was least, so what remains is tied with it
          refine ⟨n, still, gone, Nat.le_antisymm (older n held_n gone) ?_⟩
          rw [← at_latest, here]
          exact least n held_n
        · exact ⟨y, Finset.mem_erase.mpr ⟨here, member_y⟩, gone_y, at_latest⟩

/-- **When tied items go together, the outcome does not depend on the order.** -/
theorem Drains.eq_keep (run : Drains stamp size cap held kept)
    (whole : Whole stamp size cap held) : kept = keep stamp size cap held := by
  rcases (held \ keep stamp size cap held).eq_empty_or_nonempty with none | some
  · have all : held ⊆ keep stamp size cap held := Finset.sdiff_eq_empty_iff_subset.mp none
    have stay := Finset.Subset.antisymm all keep_subset
    cases run with
    | fits _ => exact stay
    | evict _ _ _ exceeds _ =>
        rw [stay] at exceeds
        exact absurd sum_keep_le (Nat.not_le_of_lt exceeds)
  · obtain ⟨x, member, last⟩ := Finset.exists_max_image _ stamp some
    obtain ⟨member, goes⟩ := Finset.mem_sdiff.mp member
    have last' : ∀ y ∈ held, y ∉ keep stamp size cap held → stamp y ≤ stamp x :=
      fun y member_y gone => last y (Finset.mem_sdiff.mpr ⟨member_y, gone⟩)
    refine Drains.eq_of_latest run keep_subset sum_keep_le (?_ : ∀ y ∈ _, stamp x < stamp y) ?_ ?_ ?_
    · intro y stay
      by_contra early
      exact goes (keep_recent stay member (Nat.le_of_not_lt early))
    · exact last'
    · intro y member_y gone same
      exact whole.last_too_large member_y gone fun z member_z gone_z =>
        same ▸ last' z member_z gone_z
    · exact fun _ _ _ => ⟨x, member, goes, rfl⟩

end Gateway.Eviction

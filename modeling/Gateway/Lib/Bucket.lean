import Mathlib.Algebra.Order.Field.Basic
import Mathlib.Data.List.Infix
import Mathlib.Tactic.Linarith
import Mathlib.Tactic.Ring

/-!
Token buckets against the traffic they are promised to let through.

A bucket refills at a rate and is clipped at its capacity. Traffic is a list of arrivals,
each a time and a cost. It *conforms* to a capacity `cap` and a `rate` if in every window
of consecutive arrivals the costs sum to at most `cap + rate * (length of the window)`.

The level of a bucket that has let the arrivals `past` through is not a function of
`past` (refills are clipped, and tokens may be handed back), but it is bounded below:
either the bucket holds `cap`, or the level is at least what the window from some past
arrival on leaves of `cap` (`Backed`). Refills and served arrivals keep this
(`Backed.refill`, `Backed.serve`), more tokens do no harm (`Backed.mono`), and it is enough
for the next arrival of conforming traffic (`Backed.enough`). Nothing of this needs the
bucket to be as small as `cap`, or to refill as slowly as `rate`.

The other way round the level is bounded above by what the arrivals since any past one
leave (`Metered`), so what a bucket lets through conforms (`Metered.conforms`), and so does
not exceed the capacity and the refill in any time interval
(`Conforms.demand_interval_le`).
-/

namespace Gateway.Bucket

variable {K : Type} [Field K] [LinearOrder K] [IsStrictOrderedRing K]

/-- The costs of some arrivals together. -/
def demand (arrivals : List (K × K)) : K := (arrivals.map Prod.snd).sum

omit [LinearOrder K] [IsStrictOrderedRing K] in
@[simp] theorem demand_snoc (arrivals : List (K × K)) (now cost : K) :
    demand (arrivals ++ [(now, cost)]) = demand arrivals + cost := by
  simp [demand]

omit [LinearOrder K] [IsStrictOrderedRing K] in
/-- Arrivals that each cost one cost as much as there are. -/
theorem demand_unit (times : List K) (p : K → Bool) :
    demand ((times.map fun now => (now, (1 : K))).filter fun a => p a.1) = (times.countP p : Nat) := by
  induction times with
  | nil => simp [demand]
  | cons now times ih =>
      simp only [demand] at ih
      by_cases counted : p now = true
      · simp [demand, counted, ih, add_comm]
      · simp [demand, counted, ih]

/-- Every window of consecutive arrivals costs at most the capacity and what refills
between its first and its last arrival. -/
def Conforms (cap rate : K) (arrivals : List (K × K)) : Prop :=
  ∀ first rest, first :: rest <:+: arrivals →
    demand (first :: rest) ≤
      cap + rate * (((first :: rest).getLast (List.cons_ne_nil _ _)).1 - first.1)

/-- Whether traffic conforms can be evaluated, window by window. -/
instance decidableConforms (cap rate : K) (arrivals : List (K × K)) :
    Decidable (Conforms cap rate arrivals) :=
  decidable_of_iff (∀ window ∈ arrivals.tails.flatMap List.inits, ∀ first ∈ window.head?,
      ∀ last ∈ window.getLast?, demand window ≤ cap + rate * (last.1 - first.1)) <| by
    constructor
    · intro all first rest within
      refine all (first :: rest) ?_ first rfl _ (List.getLast?_eq_getLast_of_ne_nil _)
      obtain ⟨suffix, part⟩ := List.infix_iff_prefix_suffix.mp within
      exact List.mem_flatMap.mpr
        ⟨suffix, (List.mem_tails _ _).mpr part.2, (List.mem_inits _ _).mpr part.1⟩
    · intro conforms window member first head last ends
      obtain ⟨suffix, part, starts⟩ := List.mem_flatMap.mp member
      have within : window <:+: arrivals := List.infix_iff_prefix_suffix.mpr
        ⟨suffix, (List.mem_inits _ _).mp starts, (List.mem_tails _ _).mp part⟩
      cases window with
      | nil => cases head
      | cons head' rest =>
          cases head
          rw [List.getLast?_eq_getLast_of_ne_nil (List.cons_ne_nil _ _)] at ends
          cases ends
          exact conforms first rest within

omit [IsStrictOrderedRing K] in
theorem Conforms.of_infix {cap rate : K} {arrivals part : List (K × K)}
    (conforms : Conforms cap rate arrivals) (within : part <:+: arrivals) :
    Conforms cap rate part := by
  intro first rest window
  exact conforms first rest (window.trans within)

omit [IsStrictOrderedRing K] in
/-- No single arrival of conforming traffic costs more than the capacity. -/
theorem Conforms.cost_le {cap rate : K} {arrivals : List (K × K)}
    (conforms : Conforms cap rate arrivals) {arrival : K × K} (member : arrival ∈ arrivals) :
    arrival.2 ≤ cap := by
  obtain ⟨before, after, rfl⟩ := List.append_of_mem member
  have alone := conforms arrival [] ⟨before, after, by simp⟩
  simpa [demand] using alone

/-- Unless the bucket holds its capacity `cap` at time `now`, the arrivals since some past one
account for what is missing. -/
def Backed (cap rate : K) (past : List (K × K)) (tokens now : K) : Prop :=
  cap ≤ tokens ∨ ∃ first rest, first :: rest <:+ past ∧
    cap + rate * (now - first.1) - demand (first :: rest) ≤ tokens

variable {cap rate tokens now : K} {past : List (K × K)}

omit [IsStrictOrderedRing K] in
/-- More tokens back as well. -/
theorem Backed.mono (backed : Backed cap rate past tokens now) {tokens' : K}
    (more : tokens ≤ tokens') : Backed cap rate past tokens' now := by
  rcases backed with full | ⟨first, rest, window, level⟩
  · exact .inl (full.trans more)
  · exact .inr ⟨first, rest, window, level.trans more⟩

/-- Refilling at least at the rate, clipped no earlier than at the capacity. -/
theorem Backed.refill (backed : Backed cap rate past tokens now) (nonneg : 0 ≤ rate)
    {later tokens' : K} (after : now ≤ later)
    (refilled : min cap (tokens + (later - now) * rate) ≤ tokens') :
    Backed cap rate past tokens' later := by
  have gained : 0 ≤ (later - now) * rate := mul_nonneg (sub_nonneg.mpr after) nonneg
  suffices Backed cap rate past (min cap (tokens + (later - now) * rate)) later from
    this.mono refilled
  rcases backed with full | ⟨first, rest, window, level⟩
  · left
    exact le_min (le_refl cap) (by linarith)
  · rcases le_total cap (tokens + (later - now) * rate) with clipped | grown
    · left
      exact le_min (le_refl cap) clipped
    · right
      refine ⟨first, rest, window, ?_⟩
      rw [min_eq_right grown]
      calc cap + rate * (later - first.1) - demand (first :: rest)
          = cap + rate * (now - first.1) - demand (first :: rest) + (later - now) * rate := by ring
        _ ≤ tokens + (later - now) * rate := by linarith

/-- **Enough for conforming traffic.** If the past arrivals and the next one conform,
the bucket holds the cost of the next one. -/
theorem Backed.enough (backed : Backed cap rate past tokens now) {cost : K}
    (conforms : Conforms cap rate (past ++ [(now, cost)])) : cost ≤ tokens := by
  rcases backed with full | ⟨first, rest, window, level⟩
  · have single : cost ≤ cap := by
      have last : (now, cost) ∈ past ++ [(now, cost)] := by simp
      exact conforms.cost_le last
    exact single.trans full
  · obtain ⟨before, rfl⟩ := window
    have spans : first :: (rest ++ [(now, cost)]) <:+: before ++ first :: rest ++ [(now, cost)] := by
      rw [List.append_assoc]
      exact (List.suffix_append before _).isInfix
    have bound := conforms first (rest ++ [(now, cost)]) spans
    have ends : (first :: (rest ++ [(now, cost)])).getLast (List.cons_ne_nil _ _) = (now, cost) := by
      simp
    rw [ends, ← List.cons_append, demand_snoc] at bound
    linarith

/-- Serving an arrival. -/
theorem Backed.serve (backed : Backed cap rate past tokens now) (cost : K) :
    Backed cap rate (past ++ [(now, cost)]) (tokens - cost) now := by
  right
  rcases backed with full | ⟨first, rest, window, level⟩
  · -- the window of this arrival alone
    refine ⟨(now, cost), [], List.suffix_append _ _, ?_⟩
    rw [sub_self, mul_zero, add_zero]
    simp only [demand, List.map_cons, List.map_nil, List.sum_cons, List.sum_nil, add_zero]
    linarith
  · obtain ⟨before, rfl⟩ := window
    refine ⟨first, rest ++ [(now, cost)], ⟨before, by simp⟩, ?_⟩
    rw [← List.cons_append, demand_snoc]
    linarith

/-! ### What a bucket lets through -/

/-- The level `tokens` at time `now` is at most the capacity, and together with the costs
of the arrivals since any past one it is at most the capacity and what was refilled since. -/
def Metered (cap rate : K) (past : List (K × K)) (tokens now : K) : Prop :=
  tokens ≤ cap ∧ ∀ first rest, first :: rest <:+ past →
    tokens + demand (first :: rest) ≤ cap + rate * (now - first.1)

omit [IsStrictOrderedRing K] in
/-- Before the first arrival only the capacity bounds the level. -/
theorem Metered.nil (le : tokens ≤ cap) (rate now : K) : Metered cap rate [] tokens now := by
  refine ⟨le, ?_⟩
  intro first rest window
  cases List.suffix_nil.mp window

/-- Refilling at most at the rate, clipped at the capacity. -/
theorem Metered.refill (metered : Metered cap rate past tokens now) {later tokens' : K}
    (le : tokens' ≤ cap) (gained : tokens' ≤ tokens + (later - now) * rate) :
    Metered cap rate past tokens' later := by
  refine ⟨le, ?_⟩
  intro first rest window
  have bound := metered.2 first rest window
  calc tokens' + demand (first :: rest)
      ≤ tokens + demand (first :: rest) + (later - now) * rate := by linarith
    _ ≤ cap + rate * (now - first.1) + (later - now) * rate := by linarith
    _ = cap + rate * (later - first.1) := by ring

omit [Field K] [LinearOrder K] [IsStrictOrderedRing K] in
/-- The windows that end with a new arrival are the old ones, extended by it, and the
arrival alone. -/
theorem suffix_snoc_cases {first : K × K} {rest : List (K × K)} {arrival : K × K}
    (window : first :: rest <:+ past ++ [arrival]) :
    (first = arrival ∧ rest = []) ∨
      ∃ rest', rest = rest' ++ [arrival] ∧ first :: rest' <:+ past := by
  rcases List.suffix_concat_iff.mp (by simpa using window) with empty | ⟨part, same, within⟩
  · cases empty
  · cases part with
    | nil =>
        left
        simpa using same
    | cons first' rest' =>
        right
        have same' : first = first' ∧ rest = rest' ++ [arrival] := by simpa using same
        obtain ⟨rfl, tail⟩ := same'
        exact ⟨rest', tail, within⟩

/-- Serving an arrival. -/
theorem Metered.serve (metered : Metered cap rate past tokens now) {cost : K} (nonneg : 0 ≤ cost) :
    Metered cap rate (past ++ [(now, cost)]) (tokens - cost) now := by
  refine ⟨by linarith [metered.1], ?_⟩
  intro first rest window
  rcases suffix_snoc_cases window with ⟨rfl, rfl⟩ | ⟨rest', rfl, old⟩
  · simp only [demand, List.map_cons, List.map_nil, List.sum_cons, List.sum_nil, sub_self, mul_zero,
      add_zero]
    linarith [metered.1]
  · have bound := metered.2 first rest' old
    rw [← List.cons_append, demand_snoc]
    linarith

/-- **Only conforming traffic is let through.** If a bucket lets an arrival through that
it holds the cost of, the arrivals let through still conform. -/
theorem Metered.conforms (metered : Metered cap rate past tokens now)
    (conforms : Conforms cap rate past) {cost : K} (enough : cost ≤ tokens) :
    Conforms cap rate (past ++ [(now, cost)]) := by
  intro first rest window
  rcases List.infix_concat_iff.mp window with ending | old
  · rcases suffix_snoc_cases ending with ⟨rfl, rfl⟩ | ⟨rest', rfl, old⟩
    · simp only [demand, List.map_cons, List.map_nil, List.sum_cons, List.sum_nil, add_zero,
        List.getLast_singleton, sub_self, mul_zero]
      exact enough.trans metered.1
    · have bound := metered.2 first rest' old
      have ends : (first :: (rest' ++ [(now, cost)])).getLast (List.cons_ne_nil _ _) = (now, cost) := by
        simp
      rw [ends, ← List.cons_append, demand_snoc]
      linarith
  · exact conforms first rest old

omit [Field K] [IsStrictOrderedRing K] in
/-- In arrivals sorted by time, those up to some time come first. -/
theorem upto_prefix {arrivals : List (K × K)} (sorted : (arrivals.map Prod.fst).Pairwise (· ≤ ·))
    (e : K) : arrivals.filter (fun a => decide (a.1 ≤ e)) <+: arrivals := by
  induction arrivals with
  | nil => exact List.prefix_rfl
  | cons a arrivals ih =>
      rw [List.map_cons, List.pairwise_cons] at sorted
      obtain ⟨least, sorted⟩ := sorted
      by_cases ended : a.1 ≤ e
      · rw [List.filter_cons_of_pos (by simpa using ended)]
        exact List.cons_prefix_cons.mpr ⟨rfl, ih sorted⟩
      · have none : (a :: arrivals).filter (fun a => decide (a.1 ≤ e)) = [] := by
          rw [List.filter_eq_nil_iff]
          intro b member
          rcases List.mem_cons.mp member with rfl | member
          · simpa using ended
          · have later := least b.1 (List.mem_map_of_mem member)
            simpa using lt_of_lt_of_le (not_le.mp ended) later
        rw [none]
        exact List.nil_prefix

omit [Field K] [IsStrictOrderedRing K] in
/-- And those from some time on come last. -/
theorem from_suffix {arrivals : List (K × K)} (sorted : (arrivals.map Prod.fst).Pairwise (· ≤ ·))
    (s : K) : arrivals.filter (fun a => decide (s ≤ a.1)) <:+ arrivals := by
  induction arrivals with
  | nil => exact List.suffix_rfl
  | cons a arrivals ih =>
      rw [List.map_cons, List.pairwise_cons] at sorted
      obtain ⟨least, sorted⟩ := sorted
      by_cases started : s ≤ a.1
      · have all : (a :: arrivals).filter (fun a => decide (s ≤ a.1)) = a :: arrivals := by
          rw [List.filter_eq_self]
          intro b member
          rcases List.mem_cons.mp member with rfl | member
          · simpa using started
          · simpa using started.trans (least b.1 (List.mem_map_of_mem member))
        rw [all]
      · rw [List.filter_cons_of_neg (by simpa using started)]
        exact (ih sorted).trans (List.suffix_cons a arrivals)

/-- **The bound of a time interval.** Conforming arrivals, sorted by time, cost at most
the capacity and what refills in the interval. -/
theorem Conforms.demand_interval_le {arrivals : List (K × K)} (conforms : Conforms cap rate arrivals)
    (sorted : (arrivals.map Prod.fst).Pairwise (· ≤ ·)) (cap_nonneg : 0 ≤ cap) (nonneg : 0 ≤ rate)
    {s e : K} (le : s ≤ e) :
    demand (arrivals.filter fun a => decide (s ≤ a.1 ∧ a.1 ≤ e)) ≤ cap + rate * (e - s) := by
  have within : arrivals.filter (fun a => decide (s ≤ a.1 ∧ a.1 ≤ e)) <:+: arrivals := by
    have split : arrivals.filter (fun a => decide (s ≤ a.1 ∧ a.1 ≤ e)) =
        (arrivals.filter fun a => decide (s ≤ a.1)).filter fun a => decide (a.1 ≤ e) := by
      rw [List.filter_filter]
      exact List.filter_congr fun a _ => by rw [Bool.and_comm]; simp
    have sorted' : ((arrivals.filter fun a => decide (s ≤ a.1)).map Prod.fst).Pairwise (· ≤ ·) :=
      sorted.sublist (List.filter_sublist.map _)
    rw [split, List.infix_iff_prefix_suffix]
    exact ⟨_, upto_prefix sorted' e, from_suffix sorted s⟩
  have inside : ∀ a ∈ arrivals.filter (fun a => decide (s ≤ a.1 ∧ a.1 ≤ e)), s ≤ a.1 ∧ a.1 ≤ e := by
    intro a member
    simpa using (List.mem_filter.mp member).2
  generalize arrivals.filter (fun a => decide (s ≤ a.1 ∧ a.1 ≤ e)) = window at within inside
  cases window with
  | nil =>
      have refilled : 0 ≤ rate * (e - s) := mul_nonneg nonneg (sub_nonneg.mpr le)
      simp only [demand, List.map_nil, List.sum_nil]
      linarith
  | cons first rest =>
      have begins := (inside first (by simp)).1
      have ends := (inside _ (List.getLast_mem (List.cons_ne_nil first rest))).2
      calc demand (first :: rest)
          ≤ cap + rate * (((first :: rest).getLast (List.cons_ne_nil _ _)).1 - first.1) :=
            conforms first rest within
        _ ≤ cap + rate * (e - s) := by
            gcongr

end Gateway.Bucket

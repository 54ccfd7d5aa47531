import Mathlib.Data.List.Rotate
import Gateway.RadixTree.Match
import Gateway.Router

/-!
What the prefix tree strategy of `gateway/router.py` chooses.

`Preferred` says it without the code's lists: an unsaturated candidate whose estimate is
within the hysteresis of every unsaturated candidate's, and none of those within the
hysteresis is less busy. `mem_tied` shows that the list the code rotates over holds exactly
the preferred candidates.

* **`choose_prefixTree`.** If the prompt can be hashed, every call returns a preferred
  candidate, or, if all are saturated, a least busy one, together with its tree match; and as
  many calls as there are preferred candidates choose each of them once.
-/

namespace Gateway.Router

section Spec

variable (cfg : Config) (r : Router) (load : LoadTracker String) (tokens : Nat)
  (found : Dict String Nat) (cands : List String)

/-- The estimate for a candidate, with what the tree matches for it. -/
def estimate (b : String) : ℚ := r.estTtft cfg load tokens (found.getD b 0) b

/-- A candidate below the saturation cutoffs. -/
def Unsaturated (b : String) : Prop := b ∈ cands ∧ r.saturated cfg load b = false

/-- Within the hysteresis of every unsaturated candidate. -/
def Near (b : String) : Prop :=
  ∀ c, Unsaturated cfg r load cands c →
    estimate cfg r load tokens found b ≤ estimate cfg r load tokens found c + cfg.hysteresisMs

/-- An unsaturated candidate within the hysteresis of the best, of which none is less busy. -/
structure Preferred (b : String) : Prop where
  unsaturated : Unsaturated cfg r load cands b
  near : Near cfg r load tokens found cands b
  lightest : ∀ c, Unsaturated cfg r load cands c → Near cfg r load tokens found cands c →
    r.inflight load b ≤ r.inflight load c

end Spec

variable {cfg : Config} {r : Router} {tree : RadixTree Nat String} {load : LoadTracker String}
  {tokens : Nat} {found : Dict String Nat} {prompt : String} {cands : List String}
  {strategy : Option Strategy} {seed : Nat} {hashes : List Nat} {mode : Hashing.Mode}

/-- There is nothing to rotate over precisely if every candidate is saturated. -/
theorem tied_eq_none : r.tied cfg load tokens found cands = none ↔
    ∀ b ∈ cands, r.saturated cfg load b = true := by
  simp [tied, List.filter_eq_nil_iff]

/-- The estimates within the hysteresis of the least one. -/
theorem near_iff {least : ℚ}
    (minimal : (((cands.filter fun b => !r.saturated cfg load b).map fun b =>
      (r.estTtft cfg load tokens (found.getD b 0) b, b, found.getD b 0)).map Prod.fst).min? = some least)
    (b : String) :
    Near cfg r load tokens found cands b ↔
      estimate cfg r load tokens found b ≤ least + cfg.hysteresisMs := by
  obtain ⟨attained, lower⟩ := List.min?_eq_some_iff.mp minimal
  simp only [List.map_map, List.mem_map, List.mem_filter, Bool.not_eq_true',
    Function.comp_apply] at attained lower
  obtain ⟨best, unsaturated, rfl⟩ := attained
  constructor
  · intro near
    exact near best unsaturated
  · intro le c unsaturated'
    have above : estimate cfg r load tokens found best ≤ estimate cfg r load tokens found c :=
      lower _ ⟨c, unsaturated', rfl⟩
    exact le.trans (by simpa [estimate] using above)

/-- **The rotation runs over the preferred candidates**, each with its tree match. -/
theorem mem_tied {ties : List (String × Nat)}
    (rotated : r.tied cfg load tokens found cands = some ties) (g : String × Nat) :
    g ∈ ties ↔ Preferred cfg r load tokens found cands g.1 ∧ g.2 = found.getD g.1 0 := by
  unfold tied at rotated
  obtain ⟨least, minimal, rfl⟩ := Option.map_eq_some_iff.mp rotated
  have near := near_iff minimal
  generalize within : List.map Prod.snd (List.filter _ _) = good
  have mem_good : ∀ g, g ∈ good ↔ (Unsaturated cfg r load cands g.1 ∧
      Near cfg r load tokens found cands g.1) ∧ g.2 = found.getD g.1 0 := by
    intro g
    rw [← within]
    simp only [List.mem_map, List.mem_filter, near, decide_eq_true_eq, Bool.not_eq_true']
    constructor
    · rintro ⟨-, ⟨⟨b, unsaturated, rfl⟩, le⟩, rfl⟩
      exact ⟨⟨unsaturated, le⟩, rfl⟩
    · rintro ⟨⟨unsaturated, le⟩, same⟩
      refine ⟨_, ⟨⟨g.1, unsaturated, rfl⟩, le⟩, ?_⟩
      rw [← same]
  cases lightest : (good.map fun g => r.inflight load g.1).min? with
  | none =>
      have empty : good = [] := by
        rwa [List.min?_eq_none_iff, List.map_eq_nil_iff] at lightest
      simp only [lightest, List.not_mem_nil, false_iff]
      rintro ⟨preferred, same⟩
      have member := (mem_good g).mpr ⟨⟨preferred.unsaturated, preferred.near⟩, same⟩
      rw [empty] at member
      cases member
  | some minLoad =>
      obtain ⟨attained, lower⟩ := List.min?_eq_some_iff.mp lightest
      obtain ⟨g', member', rfl⟩ := List.mem_map.mp attained
      obtain ⟨⟨unsaturated', near'⟩, -⟩ := (mem_good g').mp member'
      simp only [lightest, List.mem_filter, decide_eq_true_eq, mem_good]
      constructor
      · rintro ⟨⟨⟨unsaturated, close⟩, same⟩, load_eq⟩
        refine ⟨⟨unsaturated, close, fun c unsaturated_c close_c => ?_⟩, same⟩
        rw [load_eq]
        exact lower _ (List.mem_map.mpr ⟨(c, found.getD c 0),
          (mem_good _).mpr ⟨⟨unsaturated_c, close_c⟩, rfl⟩, rfl⟩)
      · rintro ⟨preferred, same⟩
        refine ⟨⟨⟨preferred.unsaturated, preferred.near⟩, same⟩, le_antisymm ?_ ?_⟩
        · exact preferred.lightest g'.1 unsaturated' near'
        · exact lower _ (List.mem_map.mpr ⟨g, (mem_good g).mpr
            ⟨⟨preferred.unsaturated, preferred.near⟩, same⟩, rfl⟩)

/-- The rotation runs over candidates, in their order. -/
theorem tied_sublist {ties : List (String × Nat)}
    (rotated : r.tied cfg load tokens found cands = some ties) :
    (ties.map Prod.fst).Sublist cands := by
  unfold tied at rotated
  obtain ⟨least, -, rfl⟩ := Option.map_eq_some_iff.mp rotated
  have good : ∀ p : ℚ × String × Nat → Bool,
      ((((cands.filter fun b => !r.saturated cfg load b).map fun b =>
        (r.estTtft cfg load tokens (found.getD b 0) b, b, found.getD b 0)).filter p).map
          Prod.snd |>.map Prod.fst).Sublist cands := by
    intro p
    have scored := ((List.filter_sublist (p := p)).map (Prod.fst ∘ Prod.snd) :
      List.Sublist _ (((cands.filter fun b => !r.saturated cfg load b).map fun b =>
        (r.estTtft cfg load tokens (found.getD b 0) b, b, found.getD b 0)).map (Prod.fst ∘ Prod.snd)))
    rw [List.map_map]
    refine scored.trans ?_
    rw [List.map_map]
    simp [Function.comp_def]
  dsimp only
  split
  · exact List.nil_sublist _
  · exact (List.filter_sublist.map _).trans (good _)

/-- A call with candidates in rotation. -/
theorem choose_of_tied (prefixTree : strategy.getD cfg.strategy = .prefixTree)
    (hashed : cfg.hashes prompt seed = some (hashes, mode)) {ties : List (String × Nat)}
    (rotated : r.tied cfg load (hashes.length * cfg.blockTokens) (tree.matchPrefix hashes) cands =
      some ties)
    {g : String × Nat} (turn : ties[r.rr % ties.length]? = some g) :
    r.choose cfg tree load prompt cands strategy seed =
      some (⟨g.1, hashes, hashes.length * cfg.blockTokens, g.2, mode⟩, { r with rr := r.rr + 1 }) := by
  rw [choose_of_hashed hashed]
  simp only [chooseHashed, prefixTree, choosePrefixTree_eq, rotated, turn, Option.map_some, if_true]

/-- A call with all candidates saturated. -/
theorem choose_of_saturated (prefixTree : strategy.getD cfg.strategy = .prefixTree)
    (hashed : cfg.hashes prompt seed = some (hashes, mode))
    (rotated : r.tied cfg load (hashes.length * cfg.blockTokens) (tree.matchPrefix hashes) cands =
      none)
    {b : String} (fallback : r.saturatedFallback load cands = some b) :
    r.choose cfg tree load prompt cands strategy seed =
      some (⟨b, hashes, hashes.length * cfg.blockTokens, (tree.matchPrefix hashes).getD b 0, mode⟩,
        r) := by
  rw [choose_of_hashed hashed]
  simp only [chooseHashed, prefixTree, choosePrefixTree_eq, rotated, fallback, Option.map_some,
    Bool.false_eq_true, if_false]

/-- The fallback is a least busy candidate. -/
theorem saturatedFallback_least (r : Router) (load : LoadTracker String) (named : "" ∉ cands)
    (some_left : cands ≠ []) :
    ∃ b, r.saturatedFallback load cands = some b ∧ b ∈ cands ∧
      ∀ c ∈ cands, r.inflight load b ≤ r.inflight load c := by
  cases least : cands.argmin (r.inflight load) with
  | none => exact absurd (List.argmin_eq_none.mp least) some_left
  | some b =>
      have member := List.argmin_mem least
      have nonempty : b ≠ "" := fun empty => named (empty ▸ member)
      refine ⟨b, by simp [saturatedFallback, least, nonempty], member, fun c other => ?_⟩
      exact List.le_of_mem_argmin other least

/-! ### Consecutive calls -/

/-- The backends that some consecutive calls choose, with nothing but the rotation changed
in between. -/
def choices (cfg : Config) (tree : RadixTree Nat String) (load : LoadTracker String)
    (prompt : String) (cands : List String) (strategy : Option Strategy) (seed : Nat) :
    Nat → Router → List String
  | 0, _ => []
  | n + 1, r =>
      match r.choose cfg tree load prompt cands strategy seed with
      | none => []
      | some (route, r') =>
          route.backendId :: choices cfg tree load prompt cands strategy seed n r'

/-- Consecutive calls take turns. -/
theorem choices_of_tied (prefixTree : strategy.getD cfg.strategy = .prefixTree)
    (hashed : cfg.hashes prompt seed = some (hashes, mode)) {ties : List (String × Nat)}
    (rotated : r.tied cfg load (hashes.length * cfg.blockTokens) (tree.matchPrefix hashes) cands =
      some ties) (pos : 0 < ties.length) (n : Nat) :
    choices cfg tree load prompt cands strategy seed n r =
      (List.range n).map fun i => (ties.map Prod.fst).getD ((r.rr + i) % ties.length) "" := by
  induction n generalizing r with
  | zero => rfl
  | succ n ih =>
      have turn := List.getElem?_eq_getElem (Nat.mod_lt r.rr pos)
      have rotated' : Router.tied cfg { r with rr := r.rr + 1 } load
          (hashes.length * cfg.blockTokens) (tree.matchPrefix hashes) cands = some ties := rotated
      simp only [choices, choose_of_tied prefixTree hashed rotated turn, ih rotated']
      rw [List.range_succ_eq_map, List.map_cons, List.map_map]
      congr 1
      · simp [List.getD, turn]
      · refine List.map_congr_left fun i _ => ?_
        simp only [Function.comp_apply, Nat.succ_eq_add_one]
        rw [Nat.add_assoc, Nat.add_comm 1 i]

/-- A whole round of turns is a rotation. -/
theorem choices_round (prefixTree : strategy.getD cfg.strategy = .prefixTree)
    (hashed : cfg.hashes prompt seed = some (hashes, mode)) {ties : List (String × Nat)}
    (rotated : r.tied cfg load (hashes.length * cfg.blockTokens) (tree.matchPrefix hashes) cands =
      some ties) :
    choices cfg tree load prompt cands strategy seed ties.length r =
      (ties.map Prod.fst).rotate r.rr := by
  rcases Nat.eq_zero_or_pos ties.length with empty | pos
  · rw [List.length_eq_zero_iff.mp empty]
    simp [choices]
  · rw [choices_of_tied prefixTree hashed rotated pos]
    refine List.ext_getElem (by simp) fun i bound _ => ?_
    have slot : (r.rr + i) % ties.length < ties.length := Nat.mod_lt _ pos
    simp [List.getElem_rotate, List.getD, slot, Nat.add_comm i]

/-- With a hysteresis that is not negative and an unsaturated candidate, somebody is
preferred. -/
theorem tied_ne_nil (within : 0 ≤ cfg.hysteresisMs) {ties : List (String × Nat)}
    (rotated : r.tied cfg load tokens found cands = some ties) : ties ≠ [] := by
  rintro rfl
  have some_left : cands ≠ [] := by
    rintro rfl
    simp [tied] at rotated
  have someone : (r.choosePrefixTree cfg load tokens found cands).isSome = true :=
    choosePrefixTree_isSome some_left within
  rw [choosePrefixTree_eq, rotated] at someone
  simp at someone

/-- What the code rotates over is a list of the preferred candidates. -/
theorem tied_perm {cfg : Config} {r : Router} {load : LoadTracker String} {tokens : Nat}
    {found : Dict String Nat} {cands : List String} {rotating : List (String × Nat)}
    (rotated : r.tied cfg load tokens found cands = some rotating) (distinct : cands.Nodup)
    {ties : List String} (nodup : ties.Nodup)
    (mem_ties : ∀ b, b ∈ ties ↔ Preferred cfg r load tokens found cands b) :
    (rotating.map Prod.fst).Perm ties := by
  refine (List.perm_ext_iff_of_nodup (distinct.sublist (tied_sublist rotated)) nodup).mpr ?_
  intro b
  rw [mem_ties, List.mem_map]
  constructor
  · rintro ⟨g, member, rfl⟩
    exact ((mem_tied rotated g).mp member).1
  · intro chosen
    exact ⟨(b, found.getD b 0), (mem_tied rotated _).mpr ⟨chosen, rfl⟩, rfl⟩

/-- **The prefix tree strategy.** With a hysteresis that is not negative and a block size other
than 0, over distinct candidates with non-empty ids, `choose` returns a candidate. If some
candidate is unsaturated it is a preferred one, and otherwise a least busy one; `match_blocks` is
what the tree matches for it, and at most the number of hashes. However far the rotation is, as
many consecutive calls as there are preferred candidates choose each of them once. -/
theorem choose_prefixTree (cfg : Config) (r : Router) (tree : RadixTree Nat String)
    (load : LoadTracker String) (prompt : String) (cands : List String)
    (strategy : Option Strategy) (seed : Nat)
    (prefixTree : strategy.getD cfg.strategy = .prefixTree) (within : 0 ≤ cfg.hysteresisMs)
    (sized : cfg.blockSize prompt ≠ 0) (some_left : cands ≠ []) (distinct : cands.Nodup)
    (named : "" ∉ cands) :
    ∃ hashes mode, cfg.hashes prompt seed = some (hashes, mode) ∧
    let found := tree.matchPrefix hashes
    let preferred := Preferred cfg r load (hashes.length * cfg.blockTokens) found cands
    (∃ route r', r.choose cfg tree load prompt cands strategy seed = some (route, r') ∧
      route.backendId ∈ cands ∧
      ((∃ c, Unsaturated cfg r load cands c) → preferred route.backendId) ∧
      ((¬ ∃ c, Unsaturated cfg r load cands c) →
        ∀ c ∈ cands, r.inflight load route.backendId ≤ r.inflight load c) ∧
      route.matchBlocks = found.getD route.backendId 0 ∧ route.matchBlocks ≤ hashes.length) ∧
    ∀ ties : List String, ties.Nodup → (∀ b, b ∈ ties ↔ preferred b) →
      (choices cfg tree load prompt cands strategy seed ties.length r).Perm ties := by
  obtain ⟨hashes, mode, hashed⟩ := Config.exists_hashes sized seed
  refine ⟨hashes, mode, hashed, ?_⟩
  intro found preferred
  cases rotated : r.tied cfg load (hashes.length * cfg.blockTokens) found cands with
  | none =>
      have all := tied_eq_none.mp rotated
      have nobody : ¬ ∃ c, Unsaturated cfg r load cands c := by
        rintro ⟨c, member, unsaturated⟩
        rw [all c member] at unsaturated
        cases unsaturated
      constructor
      · obtain ⟨b, fallback, member, least⟩ := saturatedFallback_least r load named some_left
        refine ⟨_, _, choose_of_saturated prefixTree hashed rotated fallback, member, ?_, ?_, rfl, ?_⟩
        · exact fun someone => absurd someone nobody
        · exact fun _ => least
        · exact tree.matchPrefix_le hashes b
      · intro ties _ mem_ties
        have empty : ties = [] := by
          rw [List.eq_nil_iff_forall_not_mem]
          exact fun b member => nobody ⟨b, ((mem_ties b).mp member).unsaturated⟩
        rw [empty]
        exact List.Perm.refl _
  | some rotating =>
      have pos : 0 < rotating.length := List.length_pos_iff.mpr (tied_ne_nil within rotated)
      constructor
      · have turn := List.getElem?_eq_getElem (Nat.mod_lt r.rr pos)
        have chosen := (mem_tied rotated _).mp (List.mem_of_getElem? turn)
        refine ⟨_, _, choose_of_tied prefixTree hashed rotated turn, chosen.1.unsaturated.1, ?_, ?_,
          chosen.2, ?_⟩
        · exact fun _ => chosen.1
        · exact fun nobody => absurd ⟨_, chosen.1.unsaturated⟩ nobody
        · rw [chosen.2]
          exact tree.matchPrefix_le hashes _
      · intro ties nodup mem_ties
        have same := tied_perm rotated distinct nodup mem_ties
        have length : ties.length = rotating.length := by
          rw [← same.length_eq, List.length_map]
        rw [length, choices_round prefixTree hashed rotated]
        exact (List.rotate_perm _ _).trans same

/-- A block size of 0: hashing the prompt divides by it, and no call returns, whoever is
unsaturated. -/
theorem choose_raises_unsized :
    let cfg : Config := { blockChars := 0 }
    let r : Router := ⟨0, none, none⟩
    let load : LoadTracker String := ⟨.empty, .empty, .empty⟩
    0 ≤ cfg.hysteresisMs ∧ Unsaturated cfg r load ["b0"] "b0" ∧
      ¬ ∃ route r', r.choose cfg (RadixTree.init 8) load "abcd" ["b0"] none 0 = some (route, r') := by
  intro cfg r load
  refine ⟨by decide +kernel, ⟨by simp, by decide +kernel⟩, ?_⟩
  rintro ⟨route, r', chosen⟩
  obtain ⟨hashes, mode, hashed, -⟩ := choose_eq_some chosen
  rw [Config.hashes_eq_none 0 rfl] at hashed
  cases hashed

/-- Three backends: one is out of KV memory, the other two are tied though one of them has
the beginning of the prompt cached, and take turns. -/
theorem choose_prefixTree_turns :
    let cfg : Config := { blockChars := 2, blockTokens := 2 }
    let r : Router := ⟨1, none, none⟩
    let blocks := fun p => Hashing.fullBlocks Hashing.hashChars 2 512 0 (Hashing.encode p)
    let tree : RadixTree Nat String := (RadixTree.init 8).insert (blocks "abcd") "b0"
    let load : LoadTracker String := ⟨.empty, .empty, Dict.empty.set "b2" 1⟩
    let cands := ["b0", "b1", "b2"]
    (∃ route r', r.choose cfg tree load "abcdef" cands none 0 = some (route, r') ∧
        route.backendId ∈ cands) ∧
      (choices cfg tree load "abcdef" cands none 0 2 r).Perm ["b0", "b1"] := by
  intro cfg r blocks tree load cands
  obtain ⟨hashes, mode, hashed, ⟨route, r', chosen, member, -⟩, turns⟩ :=
    choose_prefixTree cfg r tree load "abcdef" cands none 0 rfl (by decide +kernel) (by decide)
      (by decide) (by decide) (by decide)
  refine ⟨⟨route, r', chosen, member⟩, turns ["b0", "b1"] (by decide) ?_⟩
  obtain rfl : blocks "abcdef" = hashes := congrArg Prod.fst (Option.some.inj hashed)
  have rotated : r.tied cfg load ((blocks "abcdef").length * cfg.blockTokens)
      (tree.matchPrefix (blocks "abcdef")) cands = some [("b0", 2), ("b1", 0)] := by
    decide +kernel
  have cached : ∀ b ∈ ["b0", "b1"], (b, (tree.matchPrefix (blocks "abcdef")).getD b 0) ∈
      [("b0", 2), ("b1", 0)] := by decide +kernel
  intro b
  constructor
  · intro ranked
    exact ((mem_tied rotated _).mp (cached b ranked)).1
  · intro preferred
    have ranked := (mem_tied rotated
      (b, (tree.matchPrefix (blocks "abcdef")).getD b 0)).mpr ⟨preferred, rfl⟩
    simp only [List.mem_cons, Prod.mk.injEq, List.not_mem_nil, or_false] at ranked ⊢
    exact ranked.imp And.left And.left

end Gateway.Router

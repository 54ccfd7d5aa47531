import Gateway.Dag.Scheduler
import Gateway.Lib.ListScheduling

/-!
How long a planned graph takes (`gateway/dag/scheduler.py`), against any assignment of its nodes.

The strategy `locality` is list scheduling with two twists: a node is cheaper on a backend that
holds its prefix, and a backend of its parents may end a little later and still be chosen.

* `coldMakespan`: how long the layers take if the nodes are assigned in some way and no backend has
  a cache.
* `chooseLocality_least`: the backend that `locality` chooses.
* `locality_makespan_le`: the plan takes no longer than `2 - 1 / n` times as long as any assignment
  to the `n` eligible backends does without caches, and one bonus for each layer.
-/

namespace Gateway.Dag

open RadixTree ListScheduling

variable {N B : Type} [LinearOrder N] [DecidableEq B]

/-- The cost of a node where nothing is cached. -/
def coldCost (dag : RequestDag N) (cfg : DagSchedConfig) (v : N) : ℚ :=
  uncachedWork cfg (blocksOfNode dag cfg v).length 0

/-- When a layer ends whose nodes are assigned in some way, without caches. -/
def coldSpan (dag : RequestDag N) (backends : List B) (cfg : DagSchedConfig)
    (load : Option (LoadTracker B)) (assign : N → B) (layer : List N) : ℚ :=
  (backends.map (loadAt (initialBusy load cfg) assign (coldCost dag cfg) layer)).max?.getD 0

/-- How long all layers take. -/
def coldMakespan (dag : RequestDag N) (backends : List B) (cfg : DagSchedConfig)
    (load : Option (LoadTracker B)) (assign : N → B) (layers : List (List N)) : ℚ :=
  (layers.map (coldSpan dag backends cfg load assign)).sum

/-- No cost of the configuration is negative. -/
structure DagSchedConfig.Nonneg (cfg : DagSchedConfig) : Prop where
  prefill : 0 ≤ cfg.prefillMsPerToken
  tokens : 0 ≤ cfg.blockTokens
  service : 0 ≤ cfg.serviceMsPerRequest
  bonus : 0 ≤ cfg.parentAffinityBonusMs

section Costs

variable {cfg : DagSchedConfig} {load : Option (LoadTracker B)}

theorem uncachedWork_nonneg (costs : cfg.Nonneg) (nblocks mBlocks : ℕ) :
    0 ≤ uncachedWork cfg nblocks mBlocks := by
  have blocks : (0 : ℚ) ≤ (max 0 ((nblocks : ℤ) - mBlocks) : ℤ) := by
    exact_mod_cast le_max_left _ _
  have tokens : (0 : ℚ) ≤ cfg.blockTokens := by exact_mod_cast costs.tokens
  exact mul_nonneg (mul_nonneg costs.prefill blocks) tokens

/-- What is cached makes a node cheaper. -/
theorem uncachedWork_le (costs : cfg.Nonneg) (nblocks mBlocks : ℕ) :
    uncachedWork cfg nblocks mBlocks ≤ uncachedWork cfg nblocks 0 := by
  have fewer : (nblocks : ℤ) - mBlocks ≤ nblocks - (0 : ℕ) := by simp
  have blocks : ((max 0 ((nblocks : ℤ) - mBlocks) : ℤ) : ℚ) ≤
      (max 0 ((nblocks : ℤ) - (0 : ℕ)) : ℤ) := Int.cast_le.mpr (max_le_max le_rfl fewer)
  have tokens : (0 : ℚ) ≤ cfg.blockTokens := by exact_mod_cast costs.tokens
  exact mul_le_mul_of_nonneg_right (mul_le_mul_of_nonneg_left blocks costs.prefill) tokens

theorem initialBusy_nonneg (costs : cfg.Nonneg) (b : B) : 0 ≤ initialBusy load cfg b := by
  unfold initialBusy
  split
  · exact le_rfl
  · exact mul_nonneg (Nat.cast_nonneg _) costs.service

end Costs

/-! ### The choice of `locality` -/

section Choices

variable {cfg : DagSchedConfig} {found : Dict B ℕ} {nblocks : ℕ} {busy : Dict B ℚ}
  {parentBackends : List B}

theorem nodup_eligible {load : Option (LoadTracker B)} {backends : List B}
    (distinct : backends.Nodup) : (eligible load cfg backends).Nodup := by
  unfold eligible
  split
  · exact distinct
  · exact distinct.filter _

/-- The projected finish time of a node on a backend. -/
def finish (cfg : DagSchedConfig) (found : Dict B ℕ) (nblocks : ℕ) (busy : Dict B ℚ)
    (parentBackends : List B) (b : B) : ℚ :=
  busy.getD b 0 + (Choice.of cfg found nblocks b).work -
    if b ∈ parentBackends then cfg.parentAffinityBonusMs else 0

/-- The best so far is one of those seen, and none of them finishes earlier. -/
theorem foldl_consider_least {free : List B} {r : ℚ × Choice B}
    (best : free.foldl (consider cfg found nblocks busy parentBackends) none = some r) :
    ∃ b ∈ free, r = (finish cfg found nblocks busy parentBackends b, .of cfg found nblocks b) ∧
      ∀ b' ∈ free, r.1 ≤ finish cfg found nblocks busy parentBackends b' := by
  induction free using List.reverseRecOn generalizing r with
  | nil => cases best
  | append_singleton free b ih =>
      rw [List.foldl_append, List.foldl_cons, List.foldl_nil] at best
      cases before : free.foldl (consider cfg found nblocks busy parentBackends) none with
      | none =>
          rw [before] at best
          obtain rfl : _ = r := Option.some.inj best
          have first : free = [] := by
            rcases List.eq_nil_or_concat free with empty | ⟨init, last, rfl⟩
            · exact empty
            · rw [List.concat_eq_append, List.foldl_append] at before
              obtain ⟨_, same, -⟩ := consider_cases
                (init.foldl (consider cfg found nblocks busy parentBackends) none) last
              exact absurd (same.symm.trans before) (by simp)
          refine ⟨b, by simp, rfl, fun b' member => ?_⟩
          rw [first, List.nil_append] at member
          rw [List.mem_singleton.mp member]
          exact le_rfl
      | some least =>
          obtain ⟨chosen, member, same, lowest⟩ := ih before
          have step : (if finish cfg found nblocks busy parentBackends b < least.1 then
              some (finish cfg found nblocks busy parentBackends b, Choice.of cfg found nblocks b)
            else some least) = some r := by
            rw [before] at best
            exact best
          split at step
          · rename_i better
            obtain rfl := Option.some.inj step
            refine ⟨b, by simp, rfl, fun b' inside => ?_⟩
            rcases List.mem_append.mp inside with earlier | last
            · exact better.le.trans (lowest b' earlier)
            · rw [List.mem_singleton.mp last]
          · rename_i worse
            obtain rfl := Option.some.inj step
            refine ⟨chosen, List.mem_append_left _ member, same, fun b' inside => ?_⟩
            rcases List.mem_append.mp inside with earlier | last
            · exact lowest b' earlier
            · rw [List.mem_singleton.mp last]
              exact not_lt.mp worse

/-- The backend that `locality` chooses: none of the others finishes the node earlier. -/
theorem chooseLocality_least {free : List B} {c : Choice B}
    (chosen : chooseLocality cfg found nblocks busy parentBackends free = some c) :
    ∃ b ∈ free, c = .of cfg found nblocks b ∧ ∀ b' ∈ free,
      finish cfg found nblocks busy parentBackends b ≤
        finish cfg found nblocks busy parentBackends b' := by
  rw [chooseLocality, Option.map_eq_some_iff] at chosen
  obtain ⟨r, best, rfl⟩ := chosen
  obtain ⟨b, member, rfl, lowest⟩ := foldl_consider_least best
  exact ⟨b, member, rfl, lowest⟩

/-- The bonus is the most that the choice can lose. -/
theorem busy_le_of_finish_le (costs : cfg.Nonneg) {b b' : B}
    (earlier : finish cfg found nblocks busy parentBackends b ≤
      finish cfg found nblocks busy parentBackends b') :
    busy.getD b 0 + (Choice.of cfg found nblocks b).work ≤
      busy.getD b' 0 + uncachedWork cfg nblocks 0 + cfg.parentAffinityBonusMs := by
  have cached : (Choice.of cfg found nblocks b').work ≤ uncachedWork cfg nblocks 0 :=
    uncachedWork_le costs nblocks _
  have most : (if b ∈ parentBackends then cfg.parentAffinityBonusMs else 0) ≤
      cfg.parentAffinityBonusMs := by
    split
    · exact le_rfl
    · exact costs.bonus
  have least : 0 ≤ if b' ∈ parentBackends then cfg.parentAffinityBonusMs else 0 := by
    split
    · exact costs.bonus
    · exact le_rfl
  unfold finish at earlier
  linarith

end Choices

/-! ### The layers -/

section Layers

variable {dag : RequestDag N} {hashes : Dict N (List ℕ)} {backends : List B} {cfg : DagSchedConfig}
  {load : Option (LoadTracker B)} {strategy : String} {plan plan' : Plan N B} {i : ℕ}

/-- **One placement** of `locality`. -/
theorem place_locality (costs : cfg.Nonneg) (hashed : Hashed dag cfg hashes)
    (locality : strategy ≠ "round_robin") {busy busy' : Dict B ℚ} {nid : N}
    (placed : place dag hashes backends cfg load strategy i (plan, busy) nid = .ok (plan', busy')) :
    ∃ p : NodePlacement N B, plan'.makespan = plan.makespan ∧ p.nodeId = nid ∧
      p.backendId ∈ eligible load cfg backends ∧ p.estMs ≤ coldCost dag cfg nid ∧
      busy' = busy.set p.backendId (busy.getD p.backendId 0 + p.estMs) ∧
      ∀ b ∈ eligible load cfg backends, busy.getD p.backendId 0 + p.estMs ≤
        busy.getD b 0 + coldCost dag cfg nid + cfg.parentAffinityBonusMs := by
  unfold place at placed
  cases found : dag.nodes.get? nid with
  | none =>
      rw [item, found] at placed
      cases placed
  | some node =>
      have known : nid ∈ dag.nodes.keys := Dict.mem_keys_iff.mpr (by rw [found]; rfl)
      rw [item_eq found, item_eq (hashed nid known)] at placed
      dsimp only [bind, Except.bind] at placed
      rw [if_neg locality] at placed
      split at placed
      · cases placed
      · rename_i c chosen
        obtain ⟨b, member, rfl, least⟩ := chooseLocality_least chosen
        cases placed
        let blocks := blocksOfNode dag cfg nid
        let p : NodePlacement N B :=
          { nodeId := nid
            backendId := b
            layer := i
            matchBlocks := (plan.tree.matchPrefix blocks).getD b 0
            totalBlocks := blocks.length
            estMs := uncachedWork cfg blocks.length ((plan.tree.matchPrefix blocks).getD b 0) }
        exact ⟨p, rfl, rfl, member, uncachedWork_le costs _ _, rfl, fun b' other =>
          busy_le_of_finish_le costs (least b' other)⟩

/-- How `locality` places the nodes of a layer. -/
structure Packed (dag : RequestDag N) (backends : List B) (cfg : DagSchedConfig)
    (load : Option (LoadTracker B)) (ps : List (NodePlacement N B)) : Prop where
  eligible : ∀ p ∈ ps, p.backendId ∈ eligible load cfg backends
  work : ∀ p ∈ ps, p.estMs ≤ coldCost dag cfg p.nodeId
  greedy : Greedy (initialBusy load cfg) (·.backendId) (·.estMs) (fun p => coldCost dag cfg p.nodeId)
    (Dag.eligible load cfg backends) cfg.parentAffinityBonusMs ps

/-- How long the backends are busy with the placements of a layer. -/
def busyAt (cfg : DagSchedConfig) (load : Option (LoadTracker B)) (ps : List (NodePlacement N B)) :
    B → ℚ :=
  loadAt (initialBusy load cfg) (·.backendId) (·.estMs) ps

omit [LinearOrder N] in
theorem busyAt_concat (ps : List (NodePlacement N B)) (p : NodePlacement N B) (b : B) :
    busyAt cfg load (ps ++ [p]) b =
      busyAt cfg load ps b + if p.backendId = b then p.estMs else 0 :=
  loadAt_concat ..

/-- **The nodes of a layer**, one after the other. -/
theorem Packed.foldlM_place (costs : cfg.Nonneg) (hashed : Hashed dag cfg hashes)
    (locality : strategy ≠ "round_robin") (distinct : backends.Nodup) {layer : List N}
    {before : List (NodePlacement N B)}
    (packed : Packed dag backends cfg load before) {busy busy' : Dict B ℚ}
    (items : busy.items = backends.map fun b => (b, busyAt cfg load before b))
    (folded : layer.foldlM (place dag hashes backends cfg load strategy i) (plan, busy) =
      .ok (plan', busy')) :
    ∃ ps, Packed dag backends cfg load ps ∧
      ps.map (·.nodeId) = before.map (·.nodeId) ++ layer ∧ plan'.makespan = plan.makespan ∧
      busy'.items = backends.map fun b => (b, busyAt cfg load ps b) := by
  induction layer generalizing plan busy before with
  | nil =>
      cases folded
      exact ⟨before, packed, (List.append_nil _).symm, rfl, items⟩
  | cons nid layer ih =>
      rw [List.foldlM_cons] at folded
      cases step : place dag hashes backends cfg load strategy i (plan, busy) nid with
      | error e =>
          rw [step] at folded
          cases folded
      | ok next =>
          obtain ⟨mid, busy₁⟩ := next
          rw [step] at folded
          obtain ⟨p, makespan, rfl, member, cheaper, rfl, soonest⟩ :=
            place_locality costs hashed locality step
          have busy_eq : ∀ b ∈ backends, busy.getD b 0 = busyAt cfg load before b := by
            intro b inside
            rw [Dict.getD, Dict.get?_of_items_map _ items inside]
            rfl
          have chosen := eligible_subset backends member
          have more : Packed dag backends cfg load (before ++ [p]) :=
            { eligible := List.forall_mem_append.mpr ⟨packed.eligible, by simpa using member⟩
              work := List.forall_mem_append.mpr ⟨packed.work, by simpa using cheaper⟩
              greedy := packed.greedy.concat fun b free => by
                have ends := soonest b free
                rw [busy_eq _ chosen, busy_eq _ (eligible_subset backends free)] at ends
                exact ends }
          have items₁ : (busy.set p.backendId (busy.getD p.backendId 0 + p.estMs)).items =
              backends.map fun b => (b, busyAt cfg load (before ++ [p]) b) := by
            rw [Dict.items_set_map _ items distinct chosen]
            refine List.map_congr_left fun b _ => ?_
            rw [busyAt_concat, busy_eq _ chosen]
            by_cases here : b = p.backendId
            · rw [if_pos here, if_pos here.symm, here]
            · rw [if_neg here, if_neg (Ne.symm here), add_zero]
          obtain ⟨ps, packed, ids, kept, items⟩ := ih more items₁ folded
          refine ⟨ps, packed, ?_, kept.trans makespan, items⟩
          rw [ids, List.map_append, List.append_assoc]
          rfl

omit [LinearOrder N] [DecidableEq B] in
theorem le_max?_getD {f : B → ℚ} {b : B} (member : b ∈ backends) :
    f b ≤ (backends.map f).max?.getD 0 := by
  obtain ⟨most, found⟩ := Option.isSome_iff_exists.mp
    (List.isSome_max?_of_mem (List.mem_map_of_mem (f := f) member))
  rw [found]
  exact (List.max?_eq_some_iff.mp found).2 _ (List.mem_map_of_mem member)

omit [LinearOrder N] [DecidableEq B] in
theorem max?_getD_le {f : B → ℚ} {x : ℚ} (some_backend : backends ≠ [])
    (each : ∀ b ∈ backends, f b ≤ x) : (backends.map f).max?.getD 0 ≤ x := by
  cases found : (backends.map f).max? with
  | none => exact absurd (List.map_eq_nil_iff.mp (List.max?_eq_none_iff.mp found)) some_backend
  | some most =>
      obtain ⟨b, member, rfl⟩ := List.mem_map.mp (List.max?_eq_some_iff.mp found).1
      exact each b member

/-- How many times longer a plan may take. -/
def stretchFactor (load : Option (LoadTracker B)) (cfg : DagSchedConfig) (backends : List B) : ℚ :=
  2 - 1 / (eligible load cfg backends).length

/-- **A layer.** -/
theorem placeLayer_le (costs : cfg.Nonneg) (hashed : Hashed dag cfg hashes)
    (locality : strategy ≠ "round_robin") (some_backend : backends ≠ []) (distinct : backends.Nodup)
    {assign : N → B}
    (assigned : ∀ v, assign v ∈ eligible load cfg backends) {layer : List N}
    (placed : placeLayer dag hashes backends cfg load strategy plan (layer, i) = .ok plan') :
    plan'.makespan ≤ plan.makespan + (stretchFactor load cfg backends *
      coldSpan dag backends cfg load assign layer + cfg.parentAffinityBonusMs) := by
  unfold placeLayer at placed
  dsimp only at placed
  cases folded : layer.foldlM (place dag hashes backends cfg load strategy i)
      (plan, Dict.ofItems (backends.map fun b => (b, initialBusy load cfg b))) with
  | error e =>
      rw [folded] at placed
      cases placed
  | ok last =>
      obtain ⟨full, busy⟩ := last
      rw [folded] at placed
      cases placed
      have empty : Packed dag backends cfg load ([] : List (NodePlacement N B)) :=
        ⟨by simp, by simp, .nil⟩
      have begun : (Dict.ofItems (backends.map fun b => (b, initialBusy load cfg b))).items =
          backends.map fun b => (b, busyAt cfg load ([] : List (NodePlacement N B)) b) := by
        rw [Dict.items_ofItems_map _ distinct]
        exact List.map_congr_left fun b _ => by rw [busyAt, loadAt_nil]
      obtain ⟨ps, packed, ids, makespan, items⟩ :=
        empty.foldlM_place costs hashed locality distinct begun folded
      have values : busy.values = backends.map (busyAt cfg load ps) := by
        rw [Dict.values, items, List.map_map]
        rfl
      have ids : ps.map (·.nodeId) = layer := ids
      have cold : ∀ b, loadAt (initialBusy load cfg) (fun p => assign p.nodeId)
          (fun p => coldCost dag cfg p.nodeId) ps b =
            loadAt (initialBusy load cfg) assign (coldCost dag cfg) layer b := by
        intro b
        rw [← ids, loadAt_map]
      have nonneg : ∀ p ∈ ps, 0 ≤ coldCost dag cfg p.nodeId :=
        fun p _ => uncachedWork_nonneg costs _ _
      show full.makespan + busy.values.max?.getD 0 ≤ _
      rw [makespan, values]
      refine add_le_add_right (max?_getD_le some_backend fun b member => ?_) _
      refine packed.greedy.loadAt_le (nodup_eligible distinct) (initialBusy_nonneg costs)
        packed.eligible packed.work nonneg costs.bonus (fun p _ => assigned p.nodeId)
        (eligible_ne_nil some_backend) (fun b free => ?_) ?_
      · rw [cold]
        exact le_max?_getD (eligible_subset backends free)
      · exact (start_le_loadAt nonneg).trans ((cold b).trans_le (le_max?_getD member))

/-- **All layers.** -/
theorem foldlM_placeLayer_le (costs : cfg.Nonneg) (hashed : Hashed dag cfg hashes)
    (locality : strategy ≠ "round_robin") (some_backend : backends ≠ []) (distinct : backends.Nodup)
    {assign : N → B}
    (assigned : ∀ v, assign v ∈ eligible load cfg backends) {layers : List (List N)} {first : ℕ}
    (folded : (layers.zipIdx first).foldlM (placeLayer dag hashes backends cfg load strategy) plan =
      .ok plan') :
    plan'.makespan ≤ plan.makespan + (stretchFactor load cfg backends *
      coldMakespan dag backends cfg load assign layers +
        layers.length * cfg.parentAffinityBonusMs) := by
  induction layers generalizing plan first with
  | nil =>
      cases folded
      simp [coldMakespan]
  | cons layer layers ih =>
      rw [List.zipIdx_cons, List.foldlM_cons] at folded
      cases step : placeLayer dag hashes backends cfg load strategy plan (layer, first) with
      | error e =>
          rw [step] at folded
          cases folded
      | ok mid =>
          rw [step] at folded
          have one := placeLayer_le costs hashed locality some_backend distinct assigned step
          have rest := ih folded
          have both : coldMakespan dag backends cfg load assign (layer :: layers) =
              coldSpan dag backends cfg load assign layer +
                coldMakespan dag backends cfg load assign layers := by
            rw [coldMakespan, List.map_cons, List.sum_cons]
            rfl
          rw [both, List.length_cons, Nat.cast_succ]
          linarith

end Layers

/-- **The plan against any assignment.** For every graph that `validate` accepts, every load and every
configuration without negative costs and blocks of size zero, the plan of `locality` takes no longer
than `2 - 1 / n` times as long as any assignment of the nodes to the `n` eligible backends takes
without caches, and one affinity bonus for each layer. -/
theorem locality_makespan_le (dag : RequestDag N) (backends : List B) (cfg : DagSchedConfig)
    (load : Option (LoadTracker B)) {strategy : String} (locality : strategy ≠ "round_robin")
    (costs : cfg.Nonneg) (valid : dag.validate = .ok ())
    (sized : dag.nodes.keys ≠ [] → cfg.blockChars ≠ 0) (some_backend : backends ≠ [])
    (distinct : backends.Nodup) :
    ∃ layers s, dag.layers = .ok layers ∧ schedule dag backends cfg load strategy = .ok (some s) ∧
      ∀ assign : N → B, (∀ v, assign v ∈ eligible load cfg backends) →
        s.estMakespanMs ≤ (2 - 1 / (eligible load cfg backends).length) *
          coldMakespan dag backends cfg load assign layers +
            layers.length * cfg.parentAffinityBonusMs := by
  obtain ⟨-, layers, layered, layering⟩ := RequestDag.layers_of_validate valid
  have nodes : ∀ layer ∈ layers, ∀ nid ∈ layer, nid ∈ dag.nodes.keys := by
    intro layer member nid inside
    exact layering.perm.mem_iff.mp (List.mem_flatten.mpr ⟨layer, member, inside⟩)
  obtain ⟨hashes, hashing, hashed⟩ := exists_hashed sized
  obtain ⟨plan, folded, -⟩ : ∃ plan,
      layers.zipIdx.foldlM (placeLayer dag hashes backends cfg load strategy)
      { tree := .init cfg.backendCacheBlocks } = .ok plan ∧ _ :=
    foldlM_placeLayer hashed some_backend distinct strategy nodes
  refine ⟨layers, plan.toSchedule strategy, layered, ?_, fun assign assigned => ?_⟩
  · unfold schedule
    rw [if_neg some_backend, valid, hashing, layered]
    dsimp only [bind, Except.bind]
    rw [folded]
  · have bound := foldlM_placeLayer_le costs hashed locality some_backend distinct assigned folded
    rwa [zero_add] at bound

/-- The graph that maps and reduces, on two idle backends, against one that keeps a mapper apart. -/
theorem locality_makespan_le_mapReduce :
    ∃ layers s, mapReduce.layers = .ok layers ∧
      schedule mapReduce ["b0", "b1"] {} (some .empty) "locality" = .ok (some s) ∧
      s.estMakespanMs ≤ (2 - 1 / 2) * coldMakespan mapReduce ["b0", "b1"] {} (some .empty)
        (fun v => if v = "m0" then "b0" else "b1") layers + layers.length * 8 := by
  have locality : "locality" ≠ "round_robin" := by decide
  have costs : DagSchedConfig.Nonneg {} :=
    ⟨by decide +kernel, by decide, by decide +kernel, by decide +kernel⟩
  obtain ⟨layers, s, layered, scheduled, bound⟩ := locality_makespan_le mapReduce ["b0", "b1"] {}
    (some .empty) locality costs (by decide +kernel) (fun _ => by decide) (by simp) (by decide)
  refine ⟨layers, s, layered, scheduled, ?_⟩
  have assigned : ∀ v : String, (if v = "m0" then "b0" else "b1") ∈
      eligible (some (.empty : LoadTracker String)) {} ["b0", "b1"] := by
    intro v
    split <;> decide
  exact bound _ assigned

end Gateway.Dag

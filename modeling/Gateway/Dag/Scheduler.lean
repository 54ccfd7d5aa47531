import Mathlib.Algebra.Order.BigOperators.Group.List
import Mathlib.Algebra.Order.Ring.Nat
import Mathlib.Data.String.Basic
import Gateway.Dag.Graph
import Gateway.Hashing
import Gateway.LoadTracker
import Gateway.RadixTree.Survival

/-!
Scheduling a request graph over a fleet (`gateway/dag/scheduler.py`), in exact arithmetic.

The plan goes through the layers, and places the nodes of a layer one by one: the tree knows what
was placed where, `busy` how long each backend works in this layer.

* `Placed`: what one placement says, given those before it.
* `Sound`: the invariant of the plan. Its placements are such ones, the tree has seen them all and
  nothing else, and the totals are theirs.
* `schedule_spec`: what `schedule` returns, for every graph that `validate` accepts and whose
  prompts can be hashed.
-/

namespace Gateway.Dag

open RadixTree

/-- `DagSchedConfig`. -/
structure DagSchedConfig where
  enabled : Bool := false
  blockChars : ℤ := 64
  blockTokens : ℤ := 16
  hashCutoffBlocks : ℤ := 512
  backendCacheBlocks : ℤ := 2000
  prefillMsPerToken : ℚ := 5 / 100
  serviceMsPerRequest : ℚ := 200
  maxInflight : ℤ := 64
  parentAffinityBonusMs : ℚ := 8

/-- `NodePlacement`. -/
structure NodePlacement (N B : Type) where
  nodeId : N
  backendId : B
  layer : ℕ
  matchBlocks : ℕ
  totalBlocks : ℕ
  estMs : ℚ

/-- `Schedule`. -/
structure Schedule (N B : Type) where
  placements : List (NodePlacement N B)
  estMakespanMs : ℚ
  cacheHitBlocks : ℕ
  totalBlocks : ℕ
  strategy : String

variable {N B : Type} [LinearOrder N] [DecidableEq B]

/-- `_initial_busy`. -/
def initialBusy (load : Option (LoadTracker B)) (cfg : DagSchedConfig) (b : B) : ℚ :=
  match load with
  | none => 0
  | some load => load.inflightOf b * cfg.serviceMsPerRequest

/-- `_saturated`. -/
def saturated (load : Option (LoadTracker B)) (cfg : DagSchedConfig) (b : B) : Bool :=
  match load with
  | none => false
  | some load => cfg.maxInflight < load.inflightOf b

/-- `block_hashes(node.prompt, cfg.block_chars, cfg.hash_cutoff_blocks)`. No block of a negative
size is full. -/
def DagNode.hashes (cfg : DagSchedConfig) (node : DagNode N) : Option (List ℕ) :=
  if cfg.blockChars < 0 then some []
  else Hashing.blockHashes node.prompt cfg.blockChars.toNat cfg.hashCutoffBlocks.toNat 0

/-- `hashes_of`. -/
def hashesOf (dag : RequestDag N) (cfg : DagSchedConfig) : Except (Raised N) (Dict N (List ℕ)) :=
  match dag.nodes.mapValues? (DagNode.hashes cfg) with
  | some hashes => .ok hashes
  | none => .error .zeroDivision

/-- The cost of the blocks of a node that are not cached. -/
def uncachedWork (cfg : DagSchedConfig) (nblocks mBlocks : ℕ) : ℚ :=
  cfg.prefillMsPerToken * max 0 ((nblocks : ℤ) - mBlocks) * cfg.blockTokens

/-- `eligible`. -/
def eligible (load : Option (LoadTracker B)) (cfg : DagSchedConfig) (backends : List B) : List B :=
  match backends.filter fun b => !saturated load cfg b with
  | [] => backends
  | free => free

/-- The variables of `schedule` that outlive a layer. -/
structure Plan (N B : Type) where
  tree : RadixTree ℕ B
  placements : List (NodePlacement N B) := []
  nodeBackend : Dict N B := .empty
  hitBlocks : ℕ := 0
  totalBlocks : ℕ := 0
  makespan : ℚ := 0
  rr : ℕ := 0

/-- A backend for a node, with `m_blocks` and `work`. -/
structure Choice (B : Type) where
  backend : B
  mBlocks : ℕ
  work : ℚ

/-- The choice of a backend, given what the tree matches. -/
def Choice.of (cfg : DagSchedConfig) (found : Dict B ℕ) (nblocks : ℕ) (b : B) : Choice B where
  backend := b
  mBlocks := found.getD b 0
  work := uncachedWork cfg nblocks (found.getD b 0)

/-- The branch `round_robin`. -/
def chooseRoundRobin (cfg : DagSchedConfig) (found : Dict B ℕ) (nblocks rr : ℕ) (free : List B) :
    Option (Choice B) :=
  free[rr % free.length]?.map (Choice.of cfg found nblocks)

/-- One backend of the other branch, against the best so far and its finish time. -/
def consider (cfg : DagSchedConfig) (found : Dict B ℕ) (nblocks : ℕ) (busy : Dict B ℚ)
    (parentBackends : List B) (best : Option (ℚ × Choice B)) (b : B) : Option (ℚ × Choice B) :=
  let c := Choice.of cfg found nblocks b
  let bonus := if b ∈ parentBackends then cfg.parentAffinityBonusMs else 0
  let finish := busy.getD b 0 + c.work - bonus
  match best with
  | none => some (finish, c)
  | some (least, _) => if finish < least then some (finish, c) else best

/-- The other branch: the first backend with the least projected finish time. -/
def chooseLocality (cfg : DagSchedConfig) (found : Dict B ℕ) (nblocks : ℕ) (busy : Dict B ℚ)
    (parentBackends : List B) (free : List B) : Option (Choice B) :=
  (free.foldl (consider cfg found nblocks busy parentBackends) none).map Prod.snd

/-- What the plan keeps of a placement. -/
def Plan.add (plan : Plan N B) (strategy : String) (hashes : List ℕ) (p : NodePlacement N B) :
    Plan N B :=
  { plan with
    tree := plan.tree.insert hashes p.backendId
    placements := plan.placements ++ [p]
    nodeBackend := plan.nodeBackend.set p.nodeId p.backendId
    hitBlocks := plan.hitBlocks + p.matchBlocks
    totalBlocks := plan.totalBlocks + p.totalBlocks
    rr := if strategy = "round_robin" then plan.rr + 1 else plan.rr }

/-- The schedule of a complete plan. -/
def Plan.toSchedule (plan : Plan N B) (strategy : String) : Schedule N B where
  placements := plan.placements
  estMakespanMs := plan.makespan
  cacheHitBlocks := plan.hitBlocks
  totalBlocks := plan.totalBlocks
  strategy := strategy

section Loops

variable (dag : RequestDag N) (hashes : Dict N (List ℕ)) (backends : List B) (cfg : DagSchedConfig)
  (load : Option (LoadTracker B)) (strategy : String)

/-- The body of the loop over a layer. -/
def place (layerIdx : ℕ) (st : Plan N B × Dict B ℚ) (nid : N) :
    Except (Raised N) (Plan N B × Dict B ℚ) := do
  let (plan, busy) := st
  let node ← item dag.nodes nid
  let blocks ← item hashes nid
  let nblocks := blocks.length
  let found := plan.tree.matchPrefix blocks
  let free := eligible load cfg backends
  let choice := if strategy = "round_robin" then
      chooseRoundRobin cfg found nblocks plan.rr free
    else
      chooseLocality cfg found nblocks busy (node.parents.filterMap plan.nodeBackend.get?) free
  match choice with
  | none => .error .noBackend
  | some c =>
      let p :=
        { nodeId := nid
          backendId := c.backend
          layer := layerIdx
          matchBlocks := c.mBlocks
          totalBlocks := nblocks
          estMs := c.work }
      .ok (plan.add strategy blocks p, busy.set c.backend (busy.getD c.backend 0 + c.work))

/-- A layer, up to its barrier. -/
def placeLayer (plan : Plan N B) (layer : List N × ℕ) : Except (Raised N) (Plan N B) := do
  let busy := Dict.ofItems (backends.map fun b => (b, initialBusy load cfg b))
  let (plan, busy) ← layer.1.foldlM (place dag hashes backends cfg load strategy layer.2) (plan, busy)
  .ok { plan with makespan := plan.makespan + busy.values.max?.getD 0 }

/-- `schedule`. -/
def schedule : Except (Raised N) (Option (Schedule N B)) :=
  if backends = [] then .ok none
  else do
    let _ ← dag.validate
    let hashes ← hashesOf dag cfg
    let layers ← dag.layers
    let plan ← layers.zipIdx.foldlM (placeLayer dag hashes backends cfg load strategy)
      { tree := .init cfg.backendCacheBlocks }
    .ok (some (plan.toSchedule strategy))

end Loops

/-! ### The choice of a backend -/

section Choices

variable {cfg : DagSchedConfig} {load : Option (LoadTracker B)} {found : Dict B ℕ} {nblocks : ℕ}
  {busy : Dict B ℚ} {parentBackends : List B}

theorem eligible_subset (backends : List B) : eligible load cfg backends ⊆ backends := by
  unfold eligible
  split
  · exact List.Subset.refl _
  · exact List.filter_subset_self _

theorem eligible_ne_nil {backends : List B} (some_backend : backends ≠ []) :
    eligible load cfg backends ≠ [] := by
  unfold eligible
  split
  · exact some_backend
  · assumption

/-- A saturated backend is eligible only if all are saturated. -/
theorem not_saturated_of_eligible {backends : List B} {b : B}
    (chosen : b ∈ eligible load cfg backends)
    (free : ∃ b' ∈ backends, saturated load cfg b' = false) : saturated load cfg b = false := by
  unfold eligible at chosen
  split at chosen
  · rename_i none_free
    obtain ⟨b', member, free⟩ := free
    have kept : b' ∈ backends.filter fun b => !saturated load cfg b :=
      List.mem_filter.mpr ⟨member, by rw [free]; rfl⟩
    rw [none_free] at kept
    cases kept
  · simpa using (List.mem_filter.mp chosen).2

theorem exists_roundRobin (rr : ℕ) {free : List B} (some_free : free ≠ []) :
    ∃ b ∈ free, chooseRoundRobin cfg found nblocks rr free = some (.of cfg found nblocks b) := by
  have bound : rr % free.length < free.length := Nat.mod_lt _ (List.length_pos_iff.mpr some_free)
  refine ⟨free[rr % free.length], List.getElem_mem bound, ?_⟩
  rw [chooseRoundRobin, List.getElem?_eq_getElem bound]
  rfl

theorem consider_cases (best : Option (ℚ × Choice B)) (b : B) :
    ∃ r, consider cfg found nblocks busy parentBackends best b = some r ∧
      (best = some r ∨ r.2 = .of cfg found nblocks b) := by
  rcases best with _ | ⟨least, c⟩
  · exact ⟨_, rfl, .inr rfl⟩
  · by_cases better : busy.getD b 0 + (Choice.of cfg found nblocks b).work -
        (if b ∈ parentBackends then cfg.parentAffinityBonusMs else 0) < least
    · exact ⟨_, if_pos better, .inr rfl⟩
    · exact ⟨_, if_neg better, .inl rfl⟩

theorem foldl_consider (free : List B) (r : ℚ × Choice B) :
    ∃ r', free.foldl (consider cfg found nblocks busy parentBackends) (some r) = some r' ∧
      (r' = r ∨ ∃ b ∈ free, r'.2 = .of cfg found nblocks b) := by
  induction free generalizing r with
  | nil => exact ⟨r, rfl, .inl rfl⟩
  | cons b free ih =>
      obtain ⟨mid, first, kept⟩ := consider_cases (some r) b
      obtain ⟨r', rest, which⟩ := ih mid
      refine ⟨r', ?_, ?_⟩
      · rw [List.foldl_cons, first, rest]
      · rcases which with rfl | ⟨b', member, same⟩
        · rcases kept with same | new
          · exact .inl (Option.some.inj same).symm
          · exact .inr ⟨b, List.mem_cons_self, new⟩
        · exact .inr ⟨b', List.mem_cons_of_mem _ member, same⟩

theorem exists_locality {free : List B} (some_free : free ≠ []) :
    ∃ b ∈ free, chooseLocality cfg found nblocks busy parentBackends free =
      some (.of cfg found nblocks b) := by
  obtain ⟨first, free, rfl⟩ := List.exists_cons_of_ne_nil some_free
  obtain ⟨mid, start, kept⟩ := consider_cases none first
  obtain ⟨r, rest, which⟩ := foldl_consider free mid
  have new : mid.2 = .of cfg found nblocks first := kept.resolve_left nofun
  rw [chooseLocality, List.foldl_cons, start, rest]
  rcases which with rfl | ⟨b, member, same⟩
  · exact ⟨first, List.mem_cons_self, congrArg some new⟩
  · exact ⟨b, List.mem_cons_of_mem _ member, congrArg some same⟩

end Choices

/-! ### One placement -/

/-- The blocks of a node. -/
def blocksOfNode (dag : RequestDag N) (cfg : DagSchedConfig) (v : N) : List ℕ :=
  ((dag.nodes.get? v).bind (DagNode.hashes cfg)).getD []

/-- The prompts of all nodes were hashed. -/
def Hashed (dag : RequestDag N) (cfg : DagSchedConfig) (hashes : Dict N (List ℕ)) : Prop :=
  ∀ v ∈ dag.nodes.keys, hashes.get? v = some (blocksOfNode dag cfg v)

omit [LinearOrder N] in
/-- Only a block size of zero keeps a prompt from being hashed. -/
theorem DagNode.exists_hashes {cfg : DagSchedConfig} (sized : cfg.blockChars ≠ 0)
    (node : DagNode N) : ∃ blocks, node.hashes cfg = some blocks := by
  unfold hashes
  split
  · exact ⟨[], rfl⟩
  · exact ⟨_, Hashing.blockHashes_eq (by omega) _ _ _⟩

theorem exists_hashed {dag : RequestDag N} {cfg : DagSchedConfig}
    (sized : dag.nodes.keys ≠ [] → cfg.blockChars ≠ 0) :
    ∃ hashes, hashesOf dag cfg = .ok hashes ∧ Hashed dag cfg hashes := by
  have each : ∀ item ∈ dag.nodes.items, item.2.hashes cfg = some (blocksOfNode dag cfg item.1) := by
    rintro ⟨v, node⟩ member
    have some_node : dag.nodes.keys ≠ [] := List.ne_nil_of_mem (List.mem_map_of_mem member)
    obtain ⟨blocks, hashed⟩ := node.exists_hashes (sized some_node)
    rw [blocksOfNode, Dict.mem_items_iff.mp member, Option.bind_some, hashed]
    rfl
  obtain ⟨hashes, built, items⟩ := Dict.mapValues?_eq_some (blocksOfNode dag cfg) each
  refine ⟨hashes, ?_, fun v node => Dict.get?_of_items_map _ items node⟩
  rw [hashesOf, built]

/-- What the placements insert into the tree. -/
def trace (dag : RequestDag N) (cfg : DagSchedConfig) (ps : List (NodePlacement N B)) :
    List (List ℕ × B) :=
  ps.map fun p => (blocksOfNode dag cfg p.nodeId, p.backendId)

/-- What a placement says, given those before it. -/
structure Placed (dag : RequestDag N) (backends : List B) (cfg : DagSchedConfig)
    (load : Option (LoadTracker B)) (before : List (NodePlacement N B)) (p : NodePlacement N B) :
    Prop where
  eligible : p.backendId ∈ eligible load cfg backends
  total : p.totalBlocks = (blocksOfNode dag cfg p.nodeId).length
  found : p.matchBlocks = ((runOps cfg.backendCacheBlocks (inserts (trace dag cfg before))).matchPrefix
    (blocksOfNode dag cfg p.nodeId)).getD p.backendId 0
  work : p.estMs = uncachedWork cfg p.totalBlocks p.matchBlocks

/-- The invariant of the plan. -/
structure Sound (dag : RequestDag N) (backends : List B) (cfg : DagSchedConfig)
    (load : Option (LoadTracker B)) (plan : Plan N B) : Prop where
  tree : plan.tree = runOps cfg.backendCacheBlocks (inserts (trace dag cfg plan.placements))
  placed : ∀ before p after, plan.placements = before ++ p :: after →
    Placed dag backends cfg load before p
  hits : plan.hitBlocks = (plan.placements.map (·.matchBlocks)).sum
  total : plan.totalBlocks = (plan.placements.map (·.totalBlocks)).sum

section Plans

variable {dag : RequestDag N} {hashes : Dict N (List ℕ)} {backends : List B} {cfg : DagSchedConfig}
  {load : Option (LoadTracker B)} {plan : Plan N B}

/-- The backend that the strategy chooses is an eligible one. -/
theorem exists_choice (load : Option (LoadTracker B)) (cfg : DagSchedConfig) (strategy : String)
    (busy : Dict B ℚ) (some_backend : backends ≠ []) (found : Dict B ℕ) (nblocks rr : ℕ)
    (parentBackends : List B) :
    ∃ b ∈ eligible load cfg backends,
      (if strategy = "round_robin" then
        chooseRoundRobin cfg found nblocks rr (eligible load cfg backends)
      else chooseLocality cfg found nblocks busy parentBackends (eligible load cfg backends)) =
        some (.of cfg found nblocks b) := by
  have some_free : eligible load cfg backends ≠ [] := eligible_ne_nil some_backend
  split
  · exact exists_roundRobin rr some_free
  · exact exists_locality some_free

theorem Sound.add (sound : Sound dag backends cfg load plan) (strategy : String)
    {p : NodePlacement N B}
    (placed : Placed dag backends cfg load plan.placements p) :
    Sound dag backends cfg load (plan.add strategy (blocksOfNode dag cfg p.nodeId) p) where
  tree := by
    simp only [Plan.add, trace, inserts, List.map_append, List.map_singleton, runOps_snoc]
    rw [sound.tree]
    rfl
  placed := by
    intro before q after parts
    have parts : plan.placements ++ [p] = before ++ q :: after := parts
    rcases List.eq_nil_or_concat after with rfl | ⟨after, last, rfl⟩
    · obtain ⟨rfl, same⟩ := List.append_inj' parts rfl
      obtain rfl := List.singleton_inj.mp same
      exact placed
    · rw [List.concat_eq_append, ← List.cons_append, ← List.append_assoc] at parts
      exact sound.placed before q after (List.append_inj' parts rfl).1
  hits := by simp [Plan.add, sound.hits]
  total := by simp [Plan.add, sound.total]

/-- **One placement.** -/
theorem Sound.place (sound : Sound dag backends cfg load plan) (hashed : Hashed dag cfg hashes)
    (some_backend : backends ≠ []) (strategy : String) (busy : Dict B ℚ) (i : ℕ) {nid : N}
    (node : nid ∈ dag.nodes.keys) :
    ∃ p plan', place dag hashes backends cfg load strategy i (plan, busy) nid =
        .ok (plan', busy.set p.backendId (busy.getD p.backendId 0 + p.estMs)) ∧
      Sound dag backends cfg load plan' ∧ plan'.placements = plan.placements ++ [p] ∧
      plan'.makespan = plan.makespan ∧ p.nodeId = nid ∧ p.layer = i ∧ p.backendId ∈ backends := by
  obtain ⟨n, found, -⟩ := RequestDag.get?_of_mem_keys node
  let blocks := blocksOfNode dag cfg nid
  obtain ⟨b, chosen, choice⟩ := exists_choice load cfg strategy busy some_backend
    (plan.tree.matchPrefix blocks) blocks.length plan.rr
    (n.parents.filterMap plan.nodeBackend.get?)
  let p : NodePlacement N B :=
    { nodeId := nid
      backendId := b
      layer := i
      matchBlocks := (plan.tree.matchPrefix blocks).getD b 0
      totalBlocks := blocks.length
      estMs := uncachedWork cfg blocks.length ((plan.tree.matchPrefix blocks).getD b 0) }
  have placed : Placed dag backends cfg load plan.placements p :=
    { eligible := chosen
      total := rfl
      found := by rw [← sound.tree]
      work := rfl }
  have step : Dag.place dag hashes backends cfg load strategy i (plan, busy) nid =
      .ok (plan.add strategy blocks p,
        busy.set p.backendId (busy.getD p.backendId 0 + p.estMs)) := by
    unfold Dag.place
    rw [item_eq found, item_eq (hashed nid node)]
    dsimp only [bind, Except.bind]
    rw [choice]
    rfl
  exact ⟨p, _, step, sound.add strategy placed, rfl, rfl, rfl, rfl,
    eligible_subset backends chosen⟩

/-! ### Layers -/

/-- The work that some placements give to a backend. -/
def workAt (ps : List (NodePlacement N B)) (b : B) : ℚ :=
  ((ps.filter fun p => p.backendId = b).map (·.estMs)).sum

omit [LinearOrder N] in
theorem workAt_cons (p : NodePlacement N B) (ps : List (NodePlacement N B)) (b : B) :
    workAt (p :: ps) b = (if b = p.backendId then p.estMs else 0) + workAt ps b := by
  unfold workAt
  by_cases same : p.backendId = b
  · simp [same]
  · simp [same, Ne.symm same]

/-- **The nodes of a layer**, one after the other. -/
theorem Sound.foldlM_place (sound : Sound dag backends cfg load plan)
    (hashed : Hashed dag cfg hashes) (some_backend : backends ≠ []) (distinct : backends.Nodup)
    (strategy : String) (i : ℕ) {layer : List N}
    (nodes : ∀ nid ∈ layer, nid ∈ dag.nodes.keys) {busy : Dict B ℚ} {f : B → ℚ}
    (items : busy.items = backends.map fun b => (b, f b)) :
    ∃ new plan' busy', layer.foldlM (Dag.place dag hashes backends cfg load strategy i) (plan, busy) =
        .ok (plan', busy') ∧
      Sound dag backends cfg load plan' ∧ plan'.placements = plan.placements ++ new ∧
      plan'.makespan = plan.makespan ∧ new.map (·.nodeId) = layer ∧ (∀ p ∈ new, p.layer = i) ∧
      busy'.items = backends.map fun b => (b, f b + workAt new b) := by
  induction layer generalizing plan busy f with
  | nil =>
      refine ⟨[], plan, busy, rfl, sound, (List.append_nil _).symm, rfl, rfl, by simp, ?_⟩
      simpa [workAt] using items
  | cons nid layer ih =>
      obtain ⟨node, others⟩ := List.forall_mem_cons.mp nodes
      obtain ⟨p, mid, step, sound, placements, makespan, rfl, at_layer, backend⟩ :=
        sound.place hashed some_backend strategy busy i node
      have before : busy.getD p.backendId 0 = f p.backendId := by
        rw [Dict.getD, Dict.get?_of_items_map f items backend]
        rfl
      have items' : (busy.set p.backendId (busy.getD p.backendId 0 + p.estMs)).items =
          backends.map fun b => (b, f b + if b = p.backendId then p.estMs else 0) := by
        rw [before, Dict.items_set_map f items distinct backend]
        refine List.map_congr_left fun b _ => ?_
        by_cases same : b = p.backendId
        · simp [same]
        · simp [same]
      obtain ⟨new, plan', busy', rest, sound, placements', makespan', ids, layers, items''⟩ :=
        ih sound others items'
      refine ⟨p :: new, plan', busy', ?_, sound, ?_, makespan'.trans makespan,
        by rw [List.map_cons, ids], List.forall_mem_cons.mpr ⟨at_layer, layers⟩, ?_⟩
      · rw [List.foldlM_cons, step]
        exact rest
      · rw [placements', placements, List.append_assoc, List.singleton_append]
      · rw [items'']
        refine List.map_congr_left fun b _ => ?_
        rw [workAt_cons, add_assoc]

/-- **A layer.** -/
theorem Sound.placeLayer (sound : Sound dag backends cfg load plan)
    (hashed : Hashed dag cfg hashes) (some_backend : backends ≠ []) (distinct : backends.Nodup)
    (strategy : String) (i : ℕ) {layer : List N}
    (nodes : ∀ nid ∈ layer, nid ∈ dag.nodes.keys) :
    ∃ new plan', Dag.placeLayer dag hashes backends cfg load strategy plan (layer, i) = .ok plan' ∧
      Sound dag backends cfg load plan' ∧ plan'.placements = plan.placements ++ new ∧
      new.map (·.nodeId) = layer ∧ (∀ p ∈ new, p.layer = i) ∧
      plan'.makespan = plan.makespan +
        (backends.map fun b => initialBusy load cfg b + workAt new b).max?.getD 0 := by
  obtain ⟨new, plan', busy', folded, sound, placements, makespan, ids, layers, items⟩ :=
    sound.foldlM_place hashed some_backend distinct strategy i nodes
      (Dict.items_ofItems_map (initialBusy load cfg) distinct)
  refine ⟨new, { plan' with makespan := plan'.makespan + busy'.values.max?.getD 0 }, ?_,
    ⟨sound.tree, sound.placed, sound.hits, sound.total⟩, placements, ids, layers, ?_⟩
  · unfold Dag.placeLayer
    dsimp only
    rw [folded]
    rfl
  · have values : busy'.values = backends.map fun b => initialBusy load cfg b + workAt new b := by
      rw [Dict.values, items, List.map_map]
      rfl
    show plan'.makespan + busy'.values.max?.getD 0 = _
    rw [makespan, values]

/-! ### The schedule -/

/-- The nodes with their layers, in the order in which they are placed. -/
def agenda (layers : List (List N)) : List (N × ℕ) :=
  layers.zipIdx.flatMap fun layer => layer.1.map fun nid => (nid, layer.2)

omit [LinearOrder N] in
theorem agenda_append (layers : List (List N)) (layer : List N) :
    agenda (layers ++ [layer]) = agenda layers ++ layer.map fun nid => (nid, layers.length) := by
  simp [agenda, List.zipIdx_append]

omit [LinearOrder N] in
theorem mem_agenda {layers : List (List N)} {v : N} {i : ℕ} :
    (v, i) ∈ agenda layers ↔ ∃ layer, layers[i]? = some layer ∧ v ∈ layer := by
  simp only [agenda, List.mem_flatMap, List.mem_map, Prod.exists, List.mem_zipIdx_iff_getElem?,
    Prod.mk.injEq]
  constructor
  · rintro ⟨layer, j, found, v, member, rfl, rfl⟩
    exact ⟨layer, found, member⟩
  · rintro ⟨layer, found, member⟩
    exact ⟨layer, i, found, v, member, rfl, rfl⟩

omit [LinearOrder N] in
theorem map_fst_agenda (layers : List (List N)) : (agenda layers).map Prod.fst = layers.flatten := by
  induction layers using List.reverseRecOn with
  | nil => rfl
  | append_singleton layers layer ih =>
      rw [agenda_append, List.map_append, ih, List.flatten_append, List.map_map]
      simp [Function.comp_def]

omit [LinearOrder N] in
theorem pairwise_agenda (layers : List (List N)) :
    (agenda layers).Pairwise fun first second => first.2 ≤ second.2 := by
  induction layers using List.reverseRecOn with
  | nil => exact List.Pairwise.nil
  | append_singleton layers layer ih =>
      rw [agenda_append, List.pairwise_append]
      refine ⟨ih, ?_, ?_⟩
      · rw [List.pairwise_map]
        exact List.pairwise_of_forall fun _ _ => le_rfl
      · rintro ⟨v, i⟩ member second last
        obtain ⟨w, -, rfl⟩ := List.mem_map.mp last
        obtain ⟨layer, found, -⟩ := mem_agenda.mp member
        exact (List.getElem?_eq_some_iff.mp found).1.le

/-- When a layer ends: its busiest backend. -/
def layerSpan (backends : List B) (cfg : DagSchedConfig) (load : Option (LoadTracker B))
    (ps : List (NodePlacement N B)) (i : ℕ) : ℚ :=
  (backends.map fun b =>
    initialBusy load cfg b + workAt (ps.filter fun p => p.layer = i) b).max?.getD 0

omit [LinearOrder N] in
theorem layerSpan_append_of_ne {old new : List (NodePlacement N B)} {i : ℕ}
    (none_new : ∀ p ∈ new, p.layer ≠ i) :
    layerSpan backends cfg load (old ++ new) i = layerSpan backends cfg load old i := by
  have empty : new.filter (fun p => p.layer = i) = [] :=
    List.filter_eq_nil_iff.mpr fun p member => by simpa using none_new p member
  rw [layerSpan, List.filter_append, empty, List.append_nil]
  rfl

omit [LinearOrder N] in
theorem layerSpan_append_of_eq {old new : List (NodePlacement N B)} {i : ℕ}
    (none_old : ∀ p ∈ old, p.layer ≠ i) (all_new : ∀ p ∈ new, p.layer = i) :
    layerSpan backends cfg load (old ++ new) i =
      (backends.map fun b => initialBusy load cfg b + workAt new b).max?.getD 0 := by
  have empty : old.filter (fun p => p.layer = i) = [] :=
    List.filter_eq_nil_iff.mpr fun p member => by simpa using none_old p member
  have all : new.filter (fun p => p.layer = i) = new :=
    List.filter_eq_self.mpr fun p member => decide_eq_true (all_new p member)
  rw [layerSpan, List.filter_append, empty, all, List.nil_append]

/-- **All layers.** -/
theorem foldlM_placeLayer (hashed : Hashed dag cfg hashes) (some_backend : backends ≠ [])
    (distinct : backends.Nodup) (strategy : String) {layers : List (List N)}
    (nodes : ∀ layer ∈ layers, ∀ nid ∈ layer, nid ∈ dag.nodes.keys) :
    ∃ plan, layers.zipIdx.foldlM (Dag.placeLayer dag hashes backends cfg load strategy)
        { tree := .init cfg.backendCacheBlocks } = .ok plan ∧
      Sound dag backends cfg load plan ∧
      plan.placements.map (fun p => (p.nodeId, p.layer)) = agenda layers ∧
      plan.makespan =
        ((List.range layers.length).map (layerSpan backends cfg load plan.placements)).sum := by
  induction layers using List.reverseRecOn with
  | nil =>
      refine ⟨_, rfl, ⟨rfl, fun before p after parts => ?_, rfl, rfl⟩, rfl, rfl⟩
      exact absurd parts.symm (by simp)
  | append_singleton layers layer ih =>
      obtain ⟨plan, folded, sound, ids, makespan⟩ := ih fun l member =>
        nodes l (List.mem_append_left _ member)
      obtain ⟨new, plan', placed, sound, placements, new_ids, new_layers, makespan'⟩ :=
        sound.placeLayer hashed some_backend distinct strategy layers.length
          (nodes layer (by simp))
      refine ⟨plan', ?_, sound, ?_, ?_⟩
      · rw [List.zipIdx_append, List.foldlM_append, folded]
        simp only [List.zipIdx_singleton, Nat.zero_add, List.foldlM_cons, List.foldlM_nil]
        show (Dag.placeLayer dag hashes backends cfg load strategy plan (layer, layers.length) >>=
          pure) = _
        rw [placed]
        rfl
      · rw [placements, List.map_append, ids, agenda_append, ← new_ids, List.map_map]
        congr 1
        exact List.map_congr_left fun p member => by simp [new_layers p member]
      · have old : ∀ i ∈ List.range layers.length, layerSpan backends cfg load plan.placements i =
            layerSpan backends cfg load plan'.placements i := by
          intro i member
          have before := List.mem_range.mp member
          rw [placements, layerSpan_append_of_ne]
          intro p inside
          rw [new_layers p inside]
          omega
        have last : layerSpan backends cfg load plan'.placements layers.length =
            (backends.map fun b => initialBusy load cfg b + workAt new b).max?.getD 0 := by
          rw [placements, layerSpan_append_of_eq _ new_layers]
          intro p inside
          have planned : (p.nodeId, p.layer) ∈ agenda layers := by
            rw [← ids]
            exact List.mem_map.mpr ⟨p, inside, rfl⟩
          obtain ⟨l, found, -⟩ := mem_agenda.mp planned
          exact (List.getElem?_eq_some_iff.mp found).1.ne
        rw [List.length_append, List.length_singleton, List.range_succ, List.map_append,
          List.sum_append, List.map_singleton, List.sum_singleton, last, makespan', makespan,
          List.map_congr_left old]

/-- What a schedule of a graph with these layers says. -/
structure ScheduleSpec (dag : RequestDag N) (layers : List (List N)) (backends : List B)
    (cfg : DagSchedConfig) (load : Option (LoadTracker B)) (s : Schedule N B) : Prop where
  /-- Every node is placed once. -/
  once : (s.placements.map (·.nodeId)).Perm dag.nodes.keys
  backend : ∀ p ∈ s.placements, p.backendId ∈ backends
  unsaturated : (∃ b ∈ backends, saturated load cfg b = false) →
    ∀ p ∈ s.placements, saturated load cfg p.backendId = false
  /-- After its parents, and in a later layer. -/
  after_parents : ∀ before p after, s.placements = before ++ p :: after →
    ∀ q ∈ dag.parentsOf p.nodeId, ∃ r ∈ before, r.nodeId = q ∧ r.layer < p.layer
  blocks : ∀ p ∈ s.placements, p.totalBlocks = (blocksOfNode dag cfg p.nodeId).length
  /-- While the blocks placed on the backend fit its cache. -/
  longest : ∀ before p after, s.placements = before ++ p :: after →
    ((blocksOf (insertedFor (trace dag cfg before) p.backendId)).card : ℤ) ≤
      cfg.backendCacheBlocks →
    LongestPrefix (insertedFor (trace dag cfg before) p.backendId) (blocksOfNode dag cfg p.nodeId)
      p.matchBlocks
  hits : s.cacheHitBlocks = (s.placements.map (·.matchBlocks)).sum
  total : s.totalBlocks = (s.placements.map (·.totalBlocks)).sum
  hits_le : s.cacheHitBlocks ≤ s.totalBlocks
  work : ∀ p ∈ s.placements, p.estMs = uncachedWork cfg p.totalBlocks p.matchBlocks
  makespan : s.estMakespanMs =
    ((List.range layers.length).map (layerSpan backends cfg load s.placements)).sum

theorem Sound.hits_le (sound : Sound dag backends cfg load plan) :
    plan.hitBlocks ≤ plan.totalBlocks := by
  rw [sound.hits, sound.total]
  refine List.sum_le_sum fun p member => ?_
  obtain ⟨before, after, parts⟩ := List.append_of_mem member
  have placed := sound.placed before p after parts
  rw [placed.found, placed.total]
  exact matchPrefix_le _ _ _

omit [DecidableEq B] in
/-- The parents of a placed node were placed before it. -/
theorem parents_before {layers : List (List N)} (known : dag.KnowsParents)
    (layering : dag.IsLayering layers) {ps before after : List (NodePlacement N B)}
    {p : NodePlacement N B} (ids : ps.map (fun p => (p.nodeId, p.layer)) = agenda layers)
    (parts : ps = before ++ p :: after) {q : N} (parent : q ∈ dag.parentsOf p.nodeId) :
    ∃ r ∈ before, r.nodeId = q ∧ r.layer < p.layer := by
  have in_layer : ∀ r ∈ ps, r.nodeId ∈ dag.nodes.keys ∧
      Layering.InLayer dag.parentsOf r.layer r.nodeId := by
    intro r member
    have planned : (r.nodeId, r.layer) ∈ agenda layers := by
      rw [← ids]
      exact List.mem_map.mpr ⟨r, member, rfl⟩
    obtain ⟨l, found, inside⟩ := mem_agenda.mp planned
    exact ((layering.layer _ l found).mem _).mp inside
  have here : p ∈ ps := by simp [parts]
  have node : q ∈ dag.nodes.keys := known _ (in_layer p here).1 q parent
  obtain ⟨r, member, rfl⟩ : ∃ r ∈ ps, r.nodeId = q := by
    have placed : q ∈ (agenda layers).map Prod.fst := by
      rw [map_fst_agenda]
      exact layering.perm.mem_iff.mpr node
    rw [← ids, List.map_map] at placed
    exact List.mem_map.mp placed
  have earlier : r.layer < p.layer :=
    (in_layer r member).2.ready_iff.mp ((in_layer p here).2.1 _ parent)
  have ordered : ps.Pairwise fun first second => first.layer ≤ second.layer := by
    have sorted := pairwise_agenda layers
    rwa [← ids, List.pairwise_map] at sorted
  rw [parts] at member ordered
  rcases List.mem_append.mp member with first | rest
  · exact ⟨r, first, rfl, earlier⟩
  · rcases List.mem_cons.mp rest with rfl | later
    · exact absurd earlier (lt_irrefl _)
    · have behind := (List.pairwise_cons.mp (List.pairwise_append.mp ordered).2.1).1 r later
      exact absurd earlier behind.not_gt

/-- **Scheduling a graph.** For every graph that `validate` accepts, every non-empty list of distinct
backends, and every load, strategy and configuration, `schedule` returns a schedule that says what it
should, unless there are prompts to hash and blocks have size zero. -/
theorem schedule_spec (dag : RequestDag N) (backends : List B) (cfg : DagSchedConfig)
    (load : Option (LoadTracker B)) (strategy : String) (valid : dag.validate = .ok ())
    (sized : dag.nodes.keys ≠ [] → cfg.blockChars ≠ 0) (some_backend : backends ≠ [])
    (distinct : backends.Nodup) :
    ∃ layers s, dag.layers = .ok layers ∧ schedule dag backends cfg load strategy = .ok (some s) ∧
      ScheduleSpec dag layers backends cfg load s := by
  obtain ⟨known, layers, layered, layering⟩ := RequestDag.layers_of_validate valid
  have nodes : ∀ layer ∈ layers, ∀ nid ∈ layer, nid ∈ dag.nodes.keys := by
    intro layer member nid inside
    exact layering.perm.mem_iff.mp (List.mem_flatten.mpr ⟨layer, member, inside⟩)
  obtain ⟨hashes, hashing, hashed⟩ := exists_hashed sized
  obtain ⟨plan, folded, sound, ids, makespan⟩ :=
    foldlM_placeLayer hashed some_backend distinct strategy nodes
  have placed : ∀ p ∈ plan.placements, ∃ before, Placed dag backends cfg load before p := by
    intro p member
    obtain ⟨before, after, parts⟩ := List.append_of_mem member
    exact ⟨before, sound.placed before p after parts⟩
  refine ⟨layers, plan.toSchedule strategy, layered, ?_, ?_⟩
  · unfold schedule
    rw [if_neg some_backend, valid, hashing, layered]
    dsimp only [bind, Except.bind]
    rw [folded]
  · refine ⟨?_, fun p member => ?_, fun free p member => ?_, ?_, fun p member => ?_, ?_, sound.hits,
      sound.total, sound.hits_le, fun p member => ?_, makespan⟩
    · have nodes := layering.perm
      rw [← map_fst_agenda, ← ids, List.map_map] at nodes
      exact nodes
    · obtain ⟨before, placed⟩ := placed p member
      exact eligible_subset backends placed.eligible
    · obtain ⟨before, placed⟩ := placed p member
      exact not_saturated_of_eligible placed.eligible free
    · exact fun before p after parts q parent => parents_before known layering ids parts parent
    · obtain ⟨before, placed⟩ := placed p member
      exact placed.total
    · intro before p after parts fits
      rw [(sound.placed before p after parts).found]
      exact longestPrefix_inserts _ _ _ fits _
    · obtain ⟨before, placed⟩ := placed p member
      exact placed.work

end Plans

/-- Two nodes and one that combines them. -/
def mapReduce : RequestDag String :=
  (RequestDag.ofNodes
    [⟨"m0", "a", []⟩, ⟨"m1", "b", []⟩, ⟨"r", "c", ["m0", "m1", "m0"]⟩]).toOption.get
      (by decide +kernel)

/-- Two idle backends for it. -/
theorem schedule_mapReduce :
    mapReduce.validate = .ok () ∧ ∃ layers s, mapReduce.layers = .ok layers ∧
      schedule mapReduce ["b0", "b1"] {} (some .empty) "locality" = .ok (some s) ∧
      ScheduleSpec mapReduce layers ["b0", "b1"] {} (some .empty) s := by
  have valid : mapReduce.validate = .ok () := by decide +kernel
  exact ⟨valid, schedule_spec mapReduce ["b0", "b1"] {} (some .empty) "locality" valid
    (fun _ => by decide) (by simp) (by decide)⟩

/-- With blocks of size zero the same graph is valid, and no schedule is returned. -/
theorem schedule_raises :
    ¬ ∀ (dag : RequestDag String) (backends : List String) (cfg : DagSchedConfig)
      (load : Option (LoadTracker String)) (strategy : String), dag.validate = .ok () →
      backends ≠ [] → backends.Nodup → 0 ≤ cfg.prefillMsPerToken → 0 ≤ cfg.serviceMsPerRequest →
      0 ≤ cfg.parentAffinityBonusMs →
      ∃ layers s, dag.layers = .ok layers ∧ schedule dag backends cfg load strategy = .ok (some s) ∧
        ScheduleSpec dag layers backends cfg load s := by
  intro all
  obtain ⟨layers, s, -, scheduled, -⟩ := all mapReduce ["b0", "b1"] { blockChars := 0 } none
    "locality" (by decide +kernel) (by simp) (by decide) (by decide +kernel) (by decide +kernel)
    (by decide +kernel)
  have raised : schedule mapReduce ["b0", "b1"] { blockChars := 0 } none "locality" =
      .error .zeroDivision := by
    have valid : mapReduce.validate = .ok () := by decide +kernel
    have unhashed : hashesOf mapReduce { blockChars := 0 } = .error .zeroDivision := by
      decide +kernel
    rw [schedule, if_neg (by simp), valid, unhashed]
    rfl
  rw [raised] at scheduled
  cases scheduled

end Gateway.Dag
